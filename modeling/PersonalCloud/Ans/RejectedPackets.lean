import PersonalCloud.Ans.PacketBounds

/-!
# Rejected packets

Most packets leave no trace if they are rejected. A rejection and a challenge are stored before it
is known that nothing follows them, and device parameters also run the callbacks before.

## Main definitions

* `Standing` — what a client has from the server, and the callbacks that were made.
* `Spares` — a packet that changes nothing of it.

## Main results

* `unaffected_iff_spares` — a rejected packet has no effect exactly if it is one of these.
-/

namespace PersonalCloud.Ans

open PersonalCloud.Lib Scan

/-- The callbacks of a login. -/
def Call.isCallback : Call → Bool
  | .setPingPacket _ | .loginCompleted => true
  | _ => false

structure Standing where
  connection : UInt64
  challenge : Option (List UInt8)
  challengeLength : Int32
  serverFlags : UInt64
  deviceId : UInt64
  generation : UInt64
  hostName : Option (List UInt8)
  externalIp : Option (List UInt8)
  externalCount : ℕ
  externalPort : Int32
  rejected : Bool
  loginCompleted : Bool
  params : Params
  callbacks : List Call
deriving DecidableEq, Repr

def Client.standing (client : Client) : Standing where
  connection := client.connection
  challenge := client.challenge
  challengeLength := client.challengeLength
  serverFlags := client.serverFlags
  deviceId := client.deviceId
  generation := client.generation
  hostName := client.hostName
  externalIp := client.externalIp
  externalCount := client.externalCount
  externalPort := client.externalPort
  rejected := client.rejected
  loginCompleted := client.loginCompleted
  params := client.params
  callbacks := client.calls.filter Call.isCallback

def Session.standing (s : Session) : Option Standing :=
  s.client.map Client.standing

variable {packet : List UInt8} {β : Type}

/-! ## What leaves the standing alone -/

theorem keeps_setClient {f : Client → Client}
    (h : ∀ client, (f client).standing = client.standing) : Keeps Session.standing (setClient f) := by
  refine Keeps.modify fun s => ?_
  unfold Session.standing
  rw [Option.map_map]
  exact Option.map_congr fun client _ => h client

theorem keeps_nullIf (p : Prop) [Decidable p] : Keeps Session.standing (nullIf p) :=
  Keeps.ite (.throw none) (.pure ())

theorem keeps_require (n : ℕ) : Keeps Session.standing (require n) :=
  (Keeps.lift _).bind fun _ => keeps_nullIf _

theorem keeps_orNull (b : Option β) : Keeps Session.standing (orNull b) := by
  cases b with
  | none => exact .throw none
  | some b => exact .pure b

theorem keeps_ansDecrypt (env : Env) (message : List UInt8) :
    Keeps Session.standing (ansDecrypt env message) := by
  refine (keeps_nullIf _).bind fun _ => ?_
  refine (keeps_nullIf _).bind fun _ => ?_
  have hkey : Keeps Session.standing clientKey := Keeps.get.bind fun _ => Keeps.lift _
  refine hkey.bind fun _ => ?_
  refine (keeps_orNull _).bind fun _ => ?_
  exact (keeps_nullIf _).bind fun _ => .pure _

theorem keeps_unpackEncrypted (env : Env) : Keeps Session.standing (unpackEncrypted env) := by
  refine (Keeps.lift _).bind fun _ => ?_
  refine (keeps_orNull _).bind fun _ => ?_
  refine (keeps_nullIf _).bind fun _ => ?_
  refine (Keeps.lift _).bind fun _ => ?_
  refine (keeps_ansDecrypt env _).bind fun _ => ?_
  exact (Keeps.lift _).bind fun _ => .pure _

theorem keeps_discard (n : ℕ) : Keeps Session.standing (discard n) := by
  induction n with
  | zero => exact .pure ()
  | succ n ih => exact (Keeps.lift _).bind fun _ => ih

theorem keeps_sendUnicast (result : Unpacked) : Keeps Session.standing (sendUnicast result) :=
  (keeps_require _).bind fun _ => (Keeps.lift _).bind fun _ => .pure _

theorem keeps_sendMulticast (result : Unpacked) : Keeps Session.standing (sendMulticast result) :=
  (keeps_require _).bind fun _ => (Keeps.lift _).bind fun _ => .pure _

theorem keeps_sendSleepSetup (env : Env) (result : Unpacked) :
    Keeps Session.standing (sendSleepSetup env result) := by
  refine (keeps_require _).bind fun _ => ?_
  refine (Keeps.lift _).bind fun _ => ?_
  iterate 3 refine (keeps_unpackEncrypted env).bind fun _ => ?_
  refine (Keeps.lift _).bind fun _ => ?_
  refine (keeps_orNull _).bind fun _ => ?_
  refine (keeps_nullIf _).bind fun _ => ?_
  iterate 4 refine (Keeps.lift _).bind fun _ => ?_
  exact .pure _

theorem keeps_unpackStates (env : Env) (n : ℕ) : Keeps Session.standing (unpackStates env n) := by
  induction n with
  | zero => exact .pure _
  | succ n ih =>
    refine ih.bind fun states => ?_
    have hstate : Keeps Session.standing (unpackState env n) := by
      iterate 3 refine (Keeps.lift _).bind fun _ => ?_
      exact .pure _
    exact hstate.bind fun _ => .pure _

theorem keeps_sendStateList (env : Env) (result : Unpacked) :
    Keeps Session.standing (sendStateList env result) := by
  refine (keeps_require _).bind fun _ => ?_
  refine (Keeps.lift _).bind fun _ => ?_
  refine (Keeps.lift _).bind fun _ => ?_
  refine (keeps_nullIf _).bind fun _ => ?_
  exact (keeps_unpackStates env _).bind fun _ => .pure _

theorem keeps_sendDeviceUpdate (result : Unpacked) :
    Keeps Session.standing (sendDeviceUpdate result) :=
  (keeps_require _).bind fun _ => (Keeps.lift _).bind fun _ => (Keeps.lift _).bind fun _ => .pure _

theorem keeps_skipArrays (n : ℕ) : Keeps Session.standing (skipArrays n) := by
  induction n with
  | zero => exact .pure ()
  | succ n ih =>
    iterate 3 refine (Keeps.lift _).bind fun _ => ?_
    exact ih

theorem keeps_sendLoginBlob (result : Unpacked) :
    Keeps Session.standing (sendLoginBlob result) := by
  refine (Keeps.lift _).bind fun _ => ?_
  refine (Keeps.lift _).bind fun _ => ?_
  exact (keeps_skipArrays 4).bind fun _ => .pure _

theorem keeps_sendTimedPing (sequenceId : UInt64) (result : Unpacked) :
    Keeps Session.standing (sendTimedPing sequenceId result) := by
  refine (keeps_require _).bind fun _ => ?_
  refine (Keeps.lift _).bind fun _ => ?_
  refine (keeps_require _).bind fun _ => ?_
  refine (keeps_nullIf _).bind fun _ => ?_
  iterate 4 refine (Keeps.lift _).bind fun _ => ?_
  exact (keeps_discard _).bind fun _ => .pure _

theorem keeps_sendResponse (result : Unpacked) : Keeps Session.standing (sendResponse result) :=
  (keeps_require _).bind fun _ => (Keeps.lift _).bind fun _ => .pure _

/-- Only these are stored while they are read. -/
def PacketType.isStored : PacketType → Bool
  | .sendChallenge | .setDeviceParams => true
  | _ => false

theorem keeps_unpackFields (env : Env) (sequenceId : UInt64) {result : Unpacked}
    (h : ¬result.type.isStored) :
    Keeps Session.standing (unpackFields env sequenceId result) := by
  unfold unpackFields
  cases htype : result.type with
  | sendUnicast => exact keeps_sendUnicast _
  | sendMulticast => exact keeps_sendMulticast _
  | sendSleepSetup => exact keeps_sendSleepSetup env _
  | sendChallenge => exact absurd (htype ▸ rfl) h
  | setDeviceParams => exact absurd (htype ▸ rfl) h
  | sendStateList => exact keeps_sendStateList env _
  | sendDeviceUpdate => exact keeps_sendDeviceUpdate _
  | sendPing => exact .pure _
  | sendLoginBlob => exact keeps_sendLoginBlob _
  | sendTimedPing => exact keeps_sendTimedPing _ _
  | sendResponse => exact keeps_sendResponse _
  | rejectCredentials => exact .pure _

theorem keeps_unpackNotification (result : Unpacked) :
    Keeps Session.standing (unpackNotification result) := by
  have hmessage : Keeps Session.standing (do
      let notification ← orNull (← unpackBytes)
      let bytes ← copy notification
      skip notification
      return { result with notification := bytes } : Unpack Unpacked) := by
    refine (Keeps.lift _).bind fun _ => ?_
    refine (keeps_orNull _).bind fun _ => ?_
    iterate 2 refine (Keeps.lift _).bind fun _ => ?_
    exact .pure _
  unfold unpackNotification
  split
  · exact hmessage
  · exact hmessage
  · exact .pure _

theorem keeps_checkSize {env : Env} {type : PacketType} (h : type ≠ .rejectCredentials) :
    Keeps Session.standing (checkSize env type) := by
  refine (Keeps.lift _).bind fun remaining => ?_
  refine (keeps_setClient fun client => ?_).bind fun _ => ?_
  · rw [if_neg h]
  refine (keeps_nullIf _).bind fun _ => ?_
  exact keeps_setClient fun _ => rfl

/-! ## Device parameters -/

/-- At least `n` callbacks were made. -/
def Called (n : ℕ) (s : Session) : Prop :=
  ∃ client, s.client = some client ∧ n ≤ (client.calls.filter Call.isCallback).length

section Params

variable {n : ℕ} {E : Option Unpacked → Prop}

theorem ends_setClient {f : Client → Client}
    (h : ∀ client, ∃ more, (f client).calls = client.calls ++ more) :
    Ends (Called n) (setClient f) (Called n) E := by
  refine Ends.modify fun s => ?_
  rintro ⟨client, hclient, hn⟩
  refine ⟨f client, by rw [hclient]; rfl, ?_⟩
  obtain ⟨more, hmore⟩ := h client
  rw [hmore, List.filter_append, List.length_append]
  omega

theorem ends_keepCalls {f : Client → Client} (h : ∀ client, (f client).calls = client.calls) :
    Ends (Called n) (setClient f) (Called n) E :=
  ends_setClient fun client => ⟨[], by rw [h, List.append_nil]⟩

theorem ends_call (f : Call) : Ends (Called n) (call f) (Called n) E :=
  ends_setClient fun _ => ⟨[f], rfl⟩

theorem ends_setPingPacket (bytes : List UInt8) :
    Ends (Called n) (call (.setPingPacket bytes)) (Called (n + 1)) E := by
  refine Ends.modify fun s => ?_
  rintro ⟨client, hclient, hn⟩
  refine ⟨{ client with calls := client.calls ++ [.setPingPacket bytes] }, by rw [hclient]; rfl, ?_⟩
  rw [List.filter_append, List.length_append]
  exact Nat.add_le_add_right hn 1

/-- What is taken for a ping is not null. -/
def NotNull (e : Option Unpacked) : Prop :=
  e ≠ none

theorem ends_pingIf (result : Unpacked) (p : Prop) [Decidable p] :
    Ends (Called n) (pingIf result p) (Called n) NotNull :=
  Ends.ite (.throw (Option.some_ne_none _)) (.pure ())

theorem ends_orPing (result : Unpacked) (b : Option β) :
    Ends (Called n) (orPing result b) (Called n) NotNull := by
  cases b with
  | none => exact .throw (Option.some_ne_none _)
  | some b => exact .pure b

theorem ends_requireOrPing (result : Unpacked) (k : ℕ) :
    Ends (Called n) (requireOrPing result k) (Called n) NotNull :=
  (Ends.lift _).bind fun _ => ends_pingIf result _

theorem ends_unpackParam {f : Int32 → Client → Client}
    (h : ∀ value client, (f value client).calls = client.calls) :
    Ends (Called n) (unpackParam f) (Called n) E := by
  refine (Ends.lift _).bind fun value => ends_keepCalls fun client => ?_
  split_ifs
  · rfl
  · exact h _ client

theorem ends_unpackGlobal (f : Int32 → Params → Params) :
    Ends (Called n) (unpackGlobal f) (Called n) E :=
  ends_unpackParam fun _ _ => by rfl

theorem ends_unpackParam64 {f : UInt64 → Client → Client}
    (h : ∀ value client, (f value client).calls = client.calls) :
    Ends (Called n) (unpackParam64 f) (Called n) E :=
  (Ends.lift _).bind fun _ => (Ends.lift _).bind fun _ => ends_keepCalls (h _)

theorem ends_unpackGlobals : Ends (Called n) unpackGlobals (Called n) E := by
  iterate 12 refine (ends_unpackGlobal _).bind fun _ => ?_
  exact ends_unpackGlobal _

theorem ends_unpackNewer : Ends (Called n) unpackNewer (Called n) E := by
  refine (ends_keepCalls fun _ => by rfl).bind fun _ => ?_
  refine (ends_unpackParam64 fun _ _ => by rfl).bind fun _ => ?_
  iterate 2 refine (ends_unpackGlobal _).bind fun _ => ?_
  iterate 2 refine (ends_unpackParam64 fun _ _ => by rfl).bind fun _ => ?_
  refine (ends_keepCalls fun _ => by rfl).bind fun _ => ?_
  iterate 2 refine (ends_unpackGlobal _).bind fun _ => ?_
  exact ends_unpackParam fun _ _ => by rfl

theorem ends_unpackRest (count : ℕ) : Ends (Called n) (unpackRest count) (Called n) E :=
  Ends.ite ((ends_unpackGlobal _).bind fun _ => .lift _) (.pure ())

theorem ends_unpackString {f : List UInt8 → Unpack Unit}
    (h : ∀ bytes, Ends (Called n) (f bytes) (Called n) E) (string? : Option Slice) :
    Ends (Called n) (unpackString string? f) (Called n) E := by
  cases string? with
  | none => exact .pure ()
  | some string =>
    refine Ends.ite ?_ (.pure ())
    exact (Ends.lift _).bind fun bytes => (h bytes).bind fun _ => .lift _

theorem ends_skipStrings (result : Unpacked) (k : ℕ) :
    Ends (Called n) (skipStrings result k) (Called n) NotNull := by
  induction k with
  | zero => exact .pure ()
  | succ k ih =>
    refine (Ends.lift _).bind fun _ => ?_
    refine (ends_orPing result _).bind fun _ => ?_
    exact (Ends.lift _).bind fun _ => ih

theorem ends_declareOnline : Ends (Called n) declareOnline (Called n) E := by
  refine ends_setClient fun client => ?_
  split_ifs
  · exact ⟨[], (List.append_nil _).symm⟩
  · exact ⟨_, List.append_assoc ..⟩
  · exact ⟨_, List.append_assoc ..⟩

theorem ends_unpackParams (result : Unpacked) :
    Ends (Called n) (unpackParams result) (Called n) NotNull := by
  refine (Ends.lift _).bind fun version => ?_
  refine Ends.bind (K := Called n) ?_ fun _ => ?_
  · exact Ends.ite ((ends_call _).bind fun _ => .throw (Option.some_ne_none _)) (.pure ())
  refine (Ends.lift _).bind fun paramCount => ?_
  refine (ends_pingIf result _).bind fun _ => ?_
  refine (ends_requireOrPing result _).bind fun _ => ?_
  refine ends_unpackGlobals.bind fun _ => ?_
  exact ends_unpackNewer.bind fun _ => ends_unpackRest _

theorem ends_unpackStrings (env : Env) (result : Unpacked) :
    Ends (Called n) (unpackStrings env result) (Called n) NotNull := by
  refine (Ends.lift _).bind fun stringCount => ?_
  refine (ends_pingIf result _).bind fun _ => ?_
  refine (Ends.lift _).bind fun _ => ?_
  refine (ends_orPing result _).bind fun pingPacket => ?_
  refine (Ends.lift _).bind fun _ => ?_
  refine Ends.bind (K := Called n) ?_ fun _ => ?_
  · refine (ends_keepCalls fun _ => by rfl).bind fun _ => (Ends.lift _).bind fun name? => ?_
    exact ends_unpackString (fun _ => ends_keepCalls fun _ => by rfl) name?
  refine (ends_keepCalls fun client => ?_).bind fun _ => ?_
  · unfold inited
    split_ifs <;> rfl
  refine Ends.bind (K := Called n) ?_ fun _ => ?_
  · refine (Ends.lift _).bind fun ip? => (ends_keepCalls fun _ => by rfl).bind fun _ => ?_
    refine ends_unpackString (fun _ => (ends_keepCalls fun _ => by rfl).bind fun _ => ?_) ip?
    exact (Ends.lift _).bind fun _ => .pure ()
  exact (ends_skipStrings result _).bind fun _ => .pure pingPacket

/-- Behind their first check, device parameters are not rejected before the callback was made. -/
theorem ends_setDeviceParams {env : Env} {result : Unpacked} {s s' : Session} {c c' : Cursor}
    {r : Except (Option Unpacked) Unpacked} (hroom : c.base + 26 ≤ packet.length)
    (hs : Called n s) (h : setDeviceParams env result s packet c = some ((r, s'), c')) :
    (∀ b, r = .ok b → Called (n + 1) s') ∧ ∀ e, r = .error e → NotNull e := by
  have hrun : setDeviceParams env result s packet c = _ :=
    Exiting.run_bind (run_require (n := 3 * 2 + signatureSize) hroom) _
  rw [hrun] at h
  refine Ends.bind (I := Called n) (K := Called n) (J := Called (n + 1)) (E := NotNull)
    (ends_unpackParams result) (fun _ => ?_) packet s c r s' c' hs h
  refine (ends_unpackStrings env result).bind fun pingPacket => ?_
  refine (ends_call _).bind fun _ => ?_
  refine (ends_call _).bind fun _ => ?_
  refine (Ends.lift _).bind fun bytes => ?_
  refine (ends_setPingPacket bytes).bind fun _ => ?_
  exact ends_declareOnline.bind fun _ => .pure result

end Params

/-! ## Challenges -/

section Challenge

/-- The fields of a challenge at `base` start with its version and the count of its numbers. -/
def Known (packet : List UInt8) (base : ℕ) : Prop :=
  UInt16.ofNat (number packet base 2) = ansChallengeVersion

instance (packet : List UInt8) (base : ℕ) : Decidable (Known packet base) :=
  inferInstanceAs (Decidable (_ = _))

def countAt (packet : List UInt8) (base : ℕ) : ℕ :=
  lengthAt packet (base + 2)

def CountFits (packet : List UInt8) (base : ℕ) : Prop :=
  2 ≤ countAt packet base ∧ base + 4 + countAt packet base * 8 ≤ packet.length

instance (packet : List UInt8) (base : ℕ) : Decidable (CountFits packet base) :=
  inferInstanceAs (Decidable (_ ∧ _))

/-- The flags are the third number. -/
def flagsOf (packet : List UInt8) (base : ℕ) : UInt64 :=
  if Known packet base ∧ CountFits packet base ∧ 2 < countAt packet base then
    .ofNat (number packet (base + 20) 8)
  else serverFlagNewPing

def connectionOf (packet : List UInt8) (base : ℕ) : UInt64 :=
  .ofNat (number packet (if Known packet base then base + 4 else base + 2) 8)

def challengeStart (packet : List UInt8) (base : ℕ) : ℕ :=
  if Known packet base then base + 4 + countAt packet base * 8 else base + 10

/-- The bytes and the length that are stored for those at `base`. -/
def challengeAt (packet : List UInt8) (base : ℕ) : Option (List UInt8) × Int32 :=
  if packet.length < base + 2 ∨ packet.length < base + 2 + lengthAt packet base then (none, -1)
  else if lengthAt packet base = 0 then (none, 0)
  else (some ((packet.drop (base + 2)).take (lengthAt packet base)), .ofNat (lengthAt packet base))

/-- What is stored of a challenge. -/
def Client.challenged (packet : List UInt8) (base : ℕ) (client : Client) : Client :=
  if Known packet base ∧ ¬CountFits packet base then
    { client with serverFlags := flagsOf packet base }
  else
    { client with
      serverFlags := flagsOf packet base
      connection := connectionOf packet base
      challenge := (challengeAt packet (challengeStart packet base)).1
      challengeLength := (challengeAt packet (challengeStart packet base)).2 }

variable {base : ℕ} {client : Client} {expectedId : Option UInt64} {fail : Bool}

theorem run_setClient (f : Client → Client) (c : Cursor) :
    setClient f ⟨some client, expectedId⟩ packet c =
      some ((.ok (), ⟨some (f client), expectedId⟩), c) :=
  rfl

theorem discard_run {n : ℕ} (h : base + n * 8 ≤ packet.length) (s : Session) :
    discard n s packet ⟨base, false⟩ = some ((.ok (), s), ⟨base + n * 8, false⟩) := by
  induction n generalizing base with
  | zero => rfl
  | succ n ih =>
    refine (Exiting.run_bind (Exiting.run_lift (unpackU64_of_le (by omega))) _).trans ?_
    rw [ih (by omega)]
    congr 3
    omega

theorem challengeBytes_run (client : Client) (hbase : base ≤ packet.length) :
    ∃ r c', challengeBytes ⟨some client, expectedId⟩ packet ⟨base, fail⟩ =
      some ((r, ⟨some { client with
        challenge := (challengeAt packet base).1
        challengeLength := (challengeAt packet base).2 }, expectedId⟩), c') := by
  unfold challengeBytes challengeAt
  by_cases hlength : packet.length < base + 2
  · refine ⟨.error none, ⟨base, fail⟩, ?_⟩
    rw [if_pos (.inl hlength)]
    refine (Exiting.run_bind rfl _).trans ?_
    refine (Exiting.run_bind (Exiting.run_lift (unpackBytes_of_lt hbase ?_)) _).trans rfl
    change packet.length - base < 2
    omega
  have hrun : unpackBytes packet ⟨base, fail⟩ = _ :=
    unpackBytes_of_le (c := ⟨base, fail⟩) (by change base + 2 ≤ _; omega)
  dsimp only at hrun
  by_cases hbytes : packet.length < base + 2 + lengthAt packet base
  · refine ⟨.error none, ⟨base, fail⟩, ?_⟩
    rw [if_pos (.inr hbytes)]
    rw [if_pos hbytes] at hrun
    refine (Exiting.run_bind rfl _).trans ?_
    exact (Exiting.run_bind (Exiting.run_lift hrun) _).trans rfl
  rw [if_neg (by omega)]
  rw [if_neg hbytes] at hrun
  by_cases hempty : lengthAt packet base = 0
  · refine ⟨.error none, ⟨base, fail⟩, ?_⟩
    rw [if_pos hempty]
    refine (Exiting.run_bind rfl _).trans ?_
    refine (Exiting.run_bind (Exiting.run_lift hrun) _).trans ?_
    refine (Exiting.run_bind rfl _).trans ?_
    refine (Exiting.run_bind rfl _).trans ?_
    refine (Exiting.run_bind_error (run_nullIf hempty) _).trans ?_
    rw [hempty]
    rfl
  · refine ⟨.ok (), ⟨base + 2 + lengthAt packet base, fail⟩, ?_⟩
    rw [if_neg hempty]
    refine (Exiting.run_bind rfl _).trans ?_
    refine (Exiting.run_bind (Exiting.run_lift hrun) _).trans ?_
    refine (Exiting.run_bind rfl _).trans ?_
    refine (Exiting.run_bind rfl _).trans ?_
    refine (Exiting.run_bind (run_nullIf_of_not hempty) _).trans ?_
    have hcopy : copy ⟨base + 2, lengthAt packet base⟩ packet ⟨base, fail⟩ =
        some ((packet.drop (base + 2)).take (lengthAt packet base), ⟨base, fail⟩) :=
      if_pos (not_lt.1 hbytes)
    exact Exiting.run_bind (Exiting.run_lift hcopy) _

theorem challengeCount_run (h : Known packet base) (hroom : base + 4 ≤ packet.length)
    (s : Session) :
    challengeCount (.ofNat (number packet base 2)) s packet ⟨base + 2, false⟩ =
      some ((if CountFits packet base then .ok (countAt packet base) else .error none, s),
        ⟨base + 4, false⟩) := by
  unfold challengeCount
  unfold Known at h
  rw [if_pos h, Exiting.run_bind (Exiting.run_lift (unpackU16_of_le (by omega)))]
  have hshort : short (countAt packet base * 8) packet ⟨base + 4, false⟩ =
      some (decide (packet.length - (base + 4) < countAt packet base * 8), ⟨base + 4, false⟩) := by
    by_cases hlt : packet.length - (base + 4) < countAt packet base * 8
    · rw [decide_eq_true hlt]
      exact lacks_of_lt hroom hlt
    · rw [decide_eq_false hlt]
      exact lacks_of_le (show base + 4 + _ ≤ _ by omega)
  refine (Exiting.run_bind (Exiting.run_lift hshort) _).trans ?_
  have hcount : (UInt16.ofNat (number packet (base + 2) 2) < 2) ↔ countAt packet base < 2 := by
    rw [UInt16.lt_iff_toNat_lt]
    rfl
  by_cases hfits : CountFits packet base
  · rw [if_pos hfits]
    obtain ⟨htwo, hle⟩ := hfits
    refine (Exiting.run_bind (run_nullIf_of_not ?_) _).trans rfl
    rw [hcount, decide_eq_true_iff]
    omega
  · rw [if_neg hfits]
    refine Exiting.run_bind_error (run_nullIf ?_) _
    rw [hcount, decide_eq_true_iff]
    unfold CountFits at hfits
    omega

theorem challengeNumbers_run (h : Known packet base) (hfits : CountFits packet base) :
    challengeNumbers (.ofNat (number packet base 2)) (countAt packet base)
        ⟨some { client with serverFlags := serverFlagNewPing }, expectedId⟩ packet
        ⟨base + 12, false⟩ =
      some ((.ok (), ⟨some { client with serverFlags := flagsOf packet base }, expectedId⟩),
        ⟨challengeStart packet base, false⟩) := by
  have hstart : challengeStart packet base = base + 4 + countAt packet base * 8 := if_pos h
  have htwo : 2 ≤ countAt packet base := hfits.1
  have hle : base + 4 + countAt packet base * 8 ≤ packet.length := hfits.2
  have hversion : UInt16.ofNat (number packet base 2) = ansChallengeVersion := h
  unfold challengeNumbers
  rw [if_pos hversion, Exiting.run_bind (Exiting.run_lift (unpackU64_of_le (by omega))), hstart]
  unfold challengeFlags flagsOf
  by_cases hmore : 2 < countAt packet base
  · rw [if_pos hmore, if_pos ⟨h, hfits, hmore⟩,
      Exiting.run_bind (Exiting.run_lift (unpackU64_of_le (by omega)))]
    refine (Exiting.run_bind rfl _).trans ?_
    refine (discard_run (by omega) _).trans ?_
    congr 3
    omega
  · rw [if_neg hmore, if_neg (by tauto)]
    have hcount : countAt packet base = 2 := by omega
    rw [hcount]
    rfl

theorem sendChallenge_run (env : Env) (result : Unpacked) (hroom : base + 12 ≤ packet.length) :
    ∃ r c', sendChallenge env result ⟨some client, expectedId⟩ packet ⟨base, false⟩ =
      some ((r, ⟨some (client.challenged packet base), expectedId⟩), c') := by
  unfold sendChallenge
  rw [Exiting.run_bind (run_require (c := ⟨base, false⟩) hroom),
    Exiting.run_bind (run_setClient _ _),
    Exiting.run_bind (Exiting.run_lift (unpackU16_of_le (by omega)))]
  by_cases hknown : Known packet base
  · have hcount := challengeCount_run hknown (by omega)
      ⟨some { client with serverFlags := serverFlagNewPing }, expectedId⟩
    by_cases hfits : CountFits packet base
    · have htwo : 2 ≤ countAt packet base := hfits.1
      have hle : base + 4 + countAt packet base * 8 ≤ packet.length := hfits.2
      rw [if_pos hfits] at hcount
      rw [Exiting.run_bind hcount, Exiting.run_bind (Exiting.run_lift (unpackU64_of_le (by omega))),
        Exiting.run_bind (challengeNumbers_run hknown hfits), Exiting.run_bind (run_setClient _ _)]
      have hstart : challengeStart packet base ≤ packet.length := by
        unfold challengeStart
        rwa [if_pos hknown]
      obtain ⟨r, c', hrun⟩ := challengeBytes_run _ hstart
      obtain ⟨r', hrun'⟩ := Exiting.run_bind_pure hrun fun _ =>
        { result with tag := if result.tag = 0 then env.now / 1000 else result.tag }
      refine ⟨r', c', hrun'.trans ?_⟩
      unfold Client.challenged connectionOf
      rw [if_neg (by tauto), if_pos hknown]
    · rw [if_neg hfits] at hcount
      refine ⟨.error none, ⟨base + 4, false⟩, (Exiting.run_bind_error hcount _).trans ?_⟩
      unfold Client.challenged flagsOf
      rw [if_pos ⟨hknown, hfits⟩, if_neg (by tauto)]
  · have hversion : UInt16.ofNat (number packet base 2) ≠ ansChallengeVersion := hknown
    have hcount (s : Session) : challengeCount (.ofNat (number packet base 2)) s packet
        ⟨base + 2, false⟩ = some ((.ok 0, s), ⟨base + 2, false⟩) := by
      unfold challengeCount
      rw [if_neg hversion]
      rfl
    have hnumbers (s : Session) (c : Cursor) : challengeNumbers (.ofNat (number packet base 2)) 0 s
        packet c = some ((.ok (), s), c) := by
      unfold challengeNumbers
      rw [if_neg hversion]
      rfl
    rw [Exiting.run_bind (hcount _),
      Exiting.run_bind (Exiting.run_lift (unpackU64_of_le (by omega))),
      Exiting.run_bind (hnumbers _ _), Exiting.run_bind (run_setClient _ _)]
    have hstart : challengeStart packet base = base + 10 := if_neg hknown
    obtain ⟨r, c', hrun⟩ := challengeBytes_run _ (show base + 10 ≤ packet.length by omega)
    obtain ⟨r', hrun'⟩ := Exiting.run_bind_pure hrun fun _ =>
      { result with tag := if result.tag = 0 then env.now / 1000 else result.tag }
    refine ⟨r', c', hrun'.trans ?_⟩
    unfold Client.challenged connectionOf flagsOf
    rw [if_neg (by tauto), if_neg hknown, if_neg (by tauto), hstart]

end Challenge

/-! ## Which packets have no effect -/

/-- What the client has is the same as before, and no callback was made. -/
def Unaffected (client : Client) (u : Unpacking) : Prop :=
  u.client.map Client.standing = some client.standing

instance (client : Client) (u : Unpacking) : Decidable (Unaffected client u) :=
  inferInstanceAs (Decidable (_ = _))

/-- The challenge is cut off, or all that is stored of it is what the client has. -/
def SparesChallenge (client : Client) (packet : List UInt8) (base : ℕ) : Prop :=
  packet.length < base + 12 ∨
    (client.serverFlags = flagsOf packet base ∧
      ((Known packet base ∧ ¬CountFits packet base) ∨
        (client.connection = connectionOf packet base ∧
          (client.challenge, client.challengeLength) =
            challengeAt packet (challengeStart packet base))))

def SparesType (client : Client) (packet : List UInt8) : PacketType → Prop
  | .rejectCredentials => client.rejected
  | .sendChallenge => SparesChallenge client packet (headerEnd packet)
  | .setDeviceParams => packet.length < headerEnd packet + 26
  | _ => True

def OutOfSequence (packet : List UInt8) (expectedId : Option UInt64) : Prop :=
  expectedId.any fun expectedId => (headerOf packet).sequenceId ≠ expectedId

/-- The packet is rejected before its fields, or stores nothing new. -/
def Spares (client : Client) (packet : List UInt8) (expectedId : Option UInt64) : Prop :=
  packet.length < headerSize ∨ ¬CheckMatches packet ∨ OutOfSequence packet expectedId ∨
    ∀ type, packetType packet = some type → SparesType client packet type

theorem standing_challenged_iff {client : Client} {base : ℕ} (h : base + 12 ≤ packet.length) :
    (client.challenged packet base).standing = client.standing ↔
      SparesChallenge client packet base := by
  unfold Client.challenged SparesChallenge
  have hlong : ¬packet.length < base + 12 := not_lt.2 h
  split_ifs with hincomplete
  · simp only [Client.standing, Standing.mk.injEq, hlong, hincomplete, false_or, true_or, true_and,
      and_true, not_false_eq_true]
    exact eq_comm
  · simp only [Client.standing, Standing.mk.injEq, hlong, hincomplete, false_or, Prod.ext_iff,
      and_true]
    tauto

section Types

variable {env : Env} {client : Client} {sequenceId : UInt64} {result : Unpacked} {s s' : Session}
  {c c' : Cursor}

/-- What is done after the fields. -/
def finish (env : Env) (type : PacketType) (result : Unpacked) : Unpack Unpacked := do
  let result ← unpackNotification result
  checkSize env type
  return result

theorem keeps_finish {type : PacketType} (h : type ≠ .rejectCredentials) (result : Unpacked) :
    Keeps Session.standing (finish env type result) := by
  refine (keeps_unpackNotification _).bind fun _ => ?_
  exact (keeps_checkSize h).bind fun _ => .pure _

/-- The fields decide, since a rejection is the only thing that is stored after them. -/
theorem standing_of_fields {type : PacketType} {fields : Unpack Unpacked} {v : Option Standing}
    (htype : type ≠ .rejectCredentials)
    (hfields : ∀ r s₁ c₁, fields s packet c = some ((r, s₁), c₁) → s₁.standing = v)
    {r : Except (Option Unpacked) Unpacked}
    (h : (fields >>= finish env type) s packet c = some ((r, s'), c')) : s'.standing = v := by
  obtain ⟨r₁, s₁, c₁, hrun, hnext⟩ := Exiting.bind_eq_some h
  have hv := hfields r₁ s₁ c₁ hrun
  cases r₁ with
  | ok b => exact (keeps_finish htype b packet s₁ c₁ _ _ _ hnext).trans hv
  | error e =>
    cases hnext
    exact hv

theorem rejectCredentials_run (hs : s.client = some client)
    (htype : result.type = .rejectCredentials)
    (h : finish env .rejectCredentials result s packet c = some ((.error none, s'), c')) :
    s'.standing = some client.standing ↔ client.rejected := by
  have hnotification : unpackNotification result = pure result := by
    unfold unpackNotification
    rw [htype]
  unfold finish at h
  rw [hnotification, Exiting.run_bind (Exiting.run_pure result)] at h
  by_cases hsize : (packet.length : ℤ) - c.base - PacketType.rejectCredentials.signatureSize = 0
  · obtain ⟨s₁, hrun⟩ := checkSize_of_eq env s hsize
    rw [Exiting.run_bind hrun] at h
    cases h
  · rw [Exiting.run_bind_error (checkSize_of_ne hsize)] at h
    cases h
    unfold Session.standing noteRejection
    rw [hs]
    simp only [Option.map_some, if_true, Option.some.injEq, Client.standing, Standing.mk.injEq]
    tauto

theorem setDeviceParams_run (hs : s.client = some client) (hroom : c.base + 26 ≤ packet.length)
    (h : (setDeviceParams env result >>= finish env .setDeviceParams) s packet c =
      some ((.error none, s'), c')) : s'.standing ≠ some client.standing := by
  obtain ⟨r, s₁, c₁, hrun, hnext⟩ := Exiting.bind_eq_some h
  obtain ⟨hok, herror⟩ := ends_setDeviceParams hroom ⟨client, hs, Nat.le_refl _⟩ hrun
  cases r with
  | error e =>
    cases hnext
    exact absurd rfl (herror none rfl)
  | ok b =>
    obtain ⟨client₁, hclient, hmore⟩ := hok b rfl
    have hkeep := keeps_finish (by decide) b packet s₁ c₁ _ _ _ hnext
    intro hsame
    rw [hsame, Session.standing, hclient] at hkeep
    have hcalls := congrArg Standing.callbacks (Option.some_injective _ hkeep)
    change client.calls.filter _ = client₁.calls.filter _ at hcalls
    rw [hcalls] at hmore
    omega

theorem standing_iff_sparesType {type : PacketType} (hs : s.client = some client)
    (htype : result.type = type)
    (h : (unpackFields env sequenceId result >>= finish env type) s packet
      ⟨headerEnd packet, false⟩ = some ((.error none, s'), c'))
    (hbase : headerEnd packet ≤ packet.length) :
    s'.standing = some client.standing ↔ SparesType client packet type := by
  have hstanding : s.standing = some client.standing := by rw [Session.standing, hs]; rfl
  by_cases hreject : type = .rejectCredentials
  · subst hreject
    have hfields : unpackFields env sequenceId result = pure result := by
      unfold unpackFields
      rw [htype]
    rw [hfields, Exiting.run_bind (Exiting.run_pure result)] at h
    exact rejectCredentials_run hs htype h
  by_cases hstored : type.isStored
  swap
  · have hkeep := keeps_unpackFields env sequenceId (htype ▸ hstored)
    refine iff_of_true (standing_of_fields hreject (fun r s₁ c₁ hrun => ?_) h) ?_
    · exact (hkeep packet s _ r s₁ c₁ hrun).trans hstanding
    · cases type <;> trivial
  cases type with
  | sendChallenge =>
    have hfields : unpackFields env sequenceId result = sendChallenge env result := by
      unfold unpackFields
      rw [htype]
    rw [hfields] at h
    by_cases hroom : headerEnd packet + 12 ≤ packet.length
    · obtain ⟨client', expectedId⟩ := s
      subst hs
      have hchallenged :
          s'.standing = some (client.challenged packet (headerEnd packet)).standing := by
        refine standing_of_fields hreject (fun r s₁ c₁ hrun => ?_) h
        obtain ⟨r', c', hrun'⟩ := sendChallenge_run env result hroom
        rw [hrun'] at hrun
        cases hrun
        rfl
      rw [hchallenged, Option.some_inj]
      exact standing_challenged_iff hroom
    · refine iff_of_true ?_ (.inl (not_le.1 hroom))
      have hrun : sendChallenge env result s packet ⟨headerEnd packet, false⟩ = _ :=
        Exiting.run_bind_error (run_require_of_lt hbase (by change _ - headerEnd _ < 12; omega)) _
      rw [Exiting.run_bind_error hrun] at h
      cases h
      exact hstanding
  | setDeviceParams =>
    have hfields : unpackFields env sequenceId result = setDeviceParams env result := by
      unfold unpackFields
      rw [htype]
    rw [hfields] at h
    by_cases hroom : headerEnd packet + 26 ≤ packet.length
    · exact iff_of_false (setDeviceParams_run hs hroom h) (not_lt.2 hroom)
    · refine iff_of_true ?_ (not_le.1 hroom)
      have hrun : setDeviceParams env result s packet ⟨headerEnd packet, false⟩ = _ :=
        Exiting.run_bind_error (run_require_of_lt hbase (by change _ - headerEnd _ < 26; omega)) _
      rw [Exiting.run_bind_error hrun] at h
      cases h
      exact hstanding
  | _ => cases hstored

end Types

/-- Runs without an outcome aside, this is all that saves the client from a packet that is
rejected. -/
theorem unaffected_iff_spares (env : Env) (client : Client) (packet : List UInt8)
    (expectedId : Option UInt64) (u : Unpacking)
    (h : unpack env (some client) packet expectedId = some u) (hnull : u.result = none) :
    Unaffected client u ↔ Spares client packet expectedId := by
  obtain ⟨⟨⟨r, s⟩, c⟩, hrun, rfl⟩ := Option.map_eq_some_iff.1 h
  obtain rfl : r = .error none := by
    cases r with
    | ok result => cases hnull
    | error result => exact congrArg Except.error hnull
  change s.standing = some client.standing ↔ _
  by_cases hshort : packet.length < headerSize
  · refine iff_of_true ?_ (.inl hshort)
    unfold unpackPacket at hrun
    rw [Exiting.run_bind_error (unpackHeader_of_short hshort)] at hrun
    cases hrun
    rfl
  have hlong : headerSize ≤ packet.length := not_lt.1 hshort
  by_cases hcheck : CheckMatches packet
  swap
  · refine iff_of_true ?_ (.inr (.inl hcheck))
    have hheader := (unpackHeader_run (s := ⟨some client, expectedId⟩) hlong).trans (if_neg hcheck)
    unfold unpackPacket at hrun
    rw [Exiting.run_bind_error hheader] at hrun
    cases hrun
    rfl
  by_cases htag : tagged packet → 40 ≤ packet.length
  swap
  · obtain ⟨hflag, hcut⟩ := Classical.not_imp.1 htag
    obtain ⟨r', s', c', hheader, -⟩ := Exiting.bind_eq_some hrun
    rw [unpackHeader_run hlong, if_pos hcheck] at hheader
    obtain ⟨b, hids, -, -⟩ := Exiting.lift_eq_some hheader
    rw [unpackIds_of_lt hflag (not_le.1 hcut) hlong] at hids
    cases hids
  unfold unpackPacket at hrun
  rw [Exiting.run_bind (unpackHeader_of_matches hlong htag hcheck)] at hrun
  unfold unpackBody at hrun
  by_cases hsequence : OutOfSequence packet expectedId
  · refine iff_of_true ?_ (.inr (.inr (.inl hsequence)))
    rw [Exiting.run_bind_error
      (checkSequence_of_mismatch (s := ⟨some client, expectedId⟩) hsequence _)] at hrun
    cases hrun
    rfl
  obtain ⟨s₁, hclient, hrun'⟩ := checkSequence_of_not_mismatch (s := ⟨some client, expectedId⟩)
    hsequence ⟨headerEnd packet, false⟩
  rw [Exiting.run_bind hrun'] at hrun
  cases htype : packetType packet with
  | none =>
    change PacketType.ofCode (headerOf packet).type = none at htype
    rw [htype] at hrun
    cases hrun
  | some type =>
    have hspares : Spares client packet expectedId ↔ SparesType client packet type := by
      unfold Spares
      rw [htype]
      simp only [not_lt.2 hlong, hcheck, hsequence, not_true, false_or, Option.some.injEq]
      exact forall_eq'
    rw [hspares]
    change PacketType.ofCode (headerOf packet).type = some type at htype
    rw [htype] at hrun
    dsimp only at hrun
    rw [Exiting.run_bind Exiting.run_get, Exiting.run_bind (run_nullIf_of_not ?_)] at hrun
    · exact standing_iff_sparesType hclient rfl hrun (headerEnd_le hlong htag)
    · rw [hclient]
      rintro ⟨⟨⟩, -⟩

/-- A client that has been opened. -/
def Client.opened : Client where
  connection := 0
  challenge := none
  challengeLength := 0
  serverFlags := 0
  deviceId := 0
  generation := 0
  serverTime := 0
  hostName := none
  externalIp := none
  externalCount := 0
  externalPort := 0
  rejected := false
  loginInited := false
  loginCompleted := false
  seed := 0
  interval := 0
  crypto := none
  params :=
    { printInterval := 120, maxSubs := 0, maxPacketSize := 8192, maxQuery := 0, partialTimeout := 20
      minDelay := 4, maxDelay := 600, baseInterval := 0, retryInterval := 0, retryCount := 0
      tcpKaTime := 180, tcpKaInterval := 5, tcpKaProbes := 6, pingBack := 0, pingFactor := 1
      keepPort := 80, jitter := 200, enableTcpOnly := 0 }
  liveSocketId := -1
  deadSocketId := -1
  declaredDead := false
  nextSocketId := 1
  packetsIn := 0
  lastTcpReceive := 0
  calls := []

/-- A header and a byte. -/
def withByte (type : UInt8) : List UInt8 :=
  [255, 224, 0, 31, 0, type] ++ List.replicate 24 0 ++ [7]

theorem unaffected_iff_spares_challenge : ∃ u,
    unpack keyless (some .opened) (withByte 27) (some 0) = some u ∧ u.result = none ∧
      (Unaffected .opened u ↔ Spares .opened (withByte 27) (some 0)) := by
  have hnull : (unpack keyless (some .opened) (withByte 27) (some 0)).any
      (fun u => u.result = none) := by decide +kernel
  obtain ⟨u, hrun, hresult⟩ := (Option.any_eq_true _ _).1 hnull
  have hresult : u.result = none := of_decide_eq_true hresult
  exact ⟨u, hrun, hresult, unaffected_iff_spares keyless .opened _ _ u hrun hresult⟩

/-- A rejection with a byte too many is itself rejected, and is noted. -/
theorem not_unaffected_rejectCredentials : ∃ u,
    unpack keyless (some .opened) (withByte 57) (some 0) = some u ∧ u.result = none ∧
      ¬Unaffected .opened u := by
  have hnoted : (unpack keyless (some .opened) (withByte 57) (some 0)).any
      (fun u => u.result = none ∧ ¬Unaffected .opened u) := by decide +kernel
  obtain ⟨u, hrun, hu⟩ := (Option.any_eq_true _ _).1 hnoted
  exact ⟨u, hrun, of_decide_eq_true hu⟩

end PersonalCloud.Ans
