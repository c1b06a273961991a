import PersonalCloud.Pxd.DecodedFields

/-!
# Hostile input

A decoder that is handed bytes by somebody else must not touch anything but these bytes and what
it has allocated, and what handles a message must not use a field that the message does not have.

## Main results

* `pxdUnpack_eq_some`, `pxdSyncReadPacket_eq_some` — within the buffer, packets are decoded as
  `unpack` and read as `syncReadPacket` says.
* `decoders_safe_iff` — for which inputs the decoders and their callers are safe.
-/

namespace PersonalCloud.Pxd

open PersonalCloud.Lib PacketType Scan

/-! ## Packets -/

section Header

variable {packet : List UInt8} {base : ℕ}

theorem decodeU16_agrees (h : base + 2 ≤ packet.length) : ∃ v,
    unpackU16 (packet.drop base) = some (v, packet.drop (base + 2)) ∧
      decodeU16 packet ⟨base, false⟩ = some (v, ⟨base + 2, false⟩) := by
  refine ⟨_, ?_, decodeU16_drop h⟩
  change (unpackU 2 (packet.drop base)).bind _ = _
  rw [unpackU_drop h]
  rfl

theorem decodeU64_agrees (h : base + 8 ≤ packet.length) : ∃ v,
    unpackU64 (packet.drop base) = some (v, packet.drop (base + 8)) ∧
      decodeU64 packet ⟨base, false⟩ = some (v, ⟨base + 8, false⟩) := by
  refine ⟨UInt64.ofNat (ofBytes ((packet.drop base).take 8)), ?_, ?_⟩
  · change (unpackU 8 (packet.drop base)).bind _ = _
    rw [unpackU_drop h]
    rfl
  · rw [decodeU64, ← bind_pure_comp]
    exact run_bind (decodeU_drop h) _

/-- The header is there as soon as the packet is long enough. -/
theorem decodeHeader (hlen : headerSize ≤ packet.length) : ∃ h,
    unpackHeader packet = some (h, packet.drop headerSize) ∧
      decodeLengths packet ⟨0, false⟩ = some ((h.checkLength, h.length), ⟨4, false⟩) ∧
      decodeIds h.checkLength h.length packet ⟨4, false⟩ = some (h, ⟨headerSize, false⟩) := by
  rw [headerSize] at hlen
  obtain ⟨checkLength, hread₁, hcheckLength⟩ := decodeU16_agrees
    (show 0 + 2 ≤ packet.length by omega)
  obtain ⟨length, hread₂, hlength⟩ := decodeU16_agrees (show 2 + 2 ≤ packet.length by omega)
  obtain ⟨type, hread₃, htype⟩ := decodeU16_agrees (show 4 + 2 ≤ packet.length by omega)
  obtain ⟨userId, hread₄, huserId⟩ := decodeU64_agrees (show 6 + 8 ≤ packet.length by omega)
  obtain ⟨asyncId, hread₅, hasyncId⟩ := decodeU64_agrees (show 14 + 8 ≤ packet.length by omega)
  obtain ⟨sequenceId, hread₆, hsequenceId⟩ := decodeU64_agrees
    (show 22 + 8 ≤ packet.length by omega)
  refine ⟨⟨checkLength, length, type, userId, asyncId, sequenceId⟩, ?_, ?_, ?_⟩
  · rw [List.drop_zero] at hread₁
    refine Option.bind_eq_some_iff.2 ⟨_, hread₁, Option.bind_eq_some_iff.2 ⟨_, hread₂, ?_⟩⟩
    refine Option.bind_eq_some_iff.2 ⟨_, hread₃, Option.bind_eq_some_iff.2 ⟨_, hread₄, ?_⟩⟩
    exact Option.bind_eq_some_iff.2 ⟨_, hread₅, Option.bind_eq_some_iff.2 ⟨_, hread₆, rfl⟩⟩
  · exact (run_bind hcheckLength _).trans (run_bind hlength _)
  · refine (run_bind htype _).trans <| (run_bind huserId _).trans ?_
    exact (run_bind hasyncId _).trans (run_bind hsequenceId _)

theorem length_of_unpackU16 {bs rest : List UInt8} {v : UInt16}
    (h : unpackU16 bs = some (v, rest)) : bs.length = 2 + rest.length := by
  obtain ⟨w, hw, -⟩ := Unpacked.of_map_eq_some h
  exact Unpacked.length_of_unpackU hw

theorem length_of_unpackU64 {bs rest : List UInt8} {v : UInt64}
    (h : unpackU64 bs = some (v, rest)) : bs.length = 8 + rest.length := by
  obtain ⟨w, hw, -⟩ := Unpacked.of_map_eq_some h
  exact Unpacked.length_of_unpackU hw

theorem unpackHeader_of_lt (hlen : packet.length < headerSize) : unpackHeader packet = none := by
  cases hread : unpackHeader packet with
  | none => rfl
  | some r =>
    obtain ⟨⟨_, bs₁⟩, h₁, h⟩ := Option.bind_eq_some_iff.1 hread
    obtain ⟨⟨_, bs₂⟩, h₂, h⟩ := Option.bind_eq_some_iff.1 h
    obtain ⟨⟨_, bs₃⟩, h₃, h⟩ := Option.bind_eq_some_iff.1 h
    obtain ⟨⟨_, bs₄⟩, h₄, h⟩ := Option.bind_eq_some_iff.1 h
    obtain ⟨⟨_, bs₅⟩, h₅, h⟩ := Option.bind_eq_some_iff.1 h
    obtain ⟨⟨_, bs₆⟩, h₆, -⟩ := Option.bind_eq_some_iff.1 h
    have := length_of_unpackU16 h₁
    have := length_of_unpackU16 h₂
    have := length_of_unpackU16 h₃
    have := length_of_unpackU64 h₄
    have := length_of_unpackU64 h₅
    have := length_of_unpackU64 h₆
    simp only [headerSize] at hlen
    omega

end Header

section Packet

variable {packet : List UInt8} {expectedId : Option UInt64} {tag : UInt64}

/-- The packet comes through the checks of its header, and ends within one of its addresses. -/
def PacketEndsWithinAddress (packet : List UInt8) (expectedId : Option UInt64) (tag : UInt64) :
    Prop :=
  ∃ h body type, unpackHeader packet = some (h, body) ∧ ~~~h.checkLength = h.length ∧
    packet.length = h.length.toNat ∧ (∀ expected, expectedId = some expected →
      h.sequenceId = expected) ∧ h.userId = tag ∧ ofCode h.type = some type ∧
        FieldsEndWithinAddress type body

/-- What is left to do behind the header. -/
def decodeBody (packet : List UInt8) (h : Header) (type : PacketType)
    (expectedId : Option UInt64) : Option (Option Unpacked × Option UInt64) := do
  let (u, c) ← decodeFields (.ofHeader type h) packet ⟨headerSize, false⟩
  let remaining : ℤ := packet.length - c.base - if isSigned h.type then signatureSize else 0
  if c.fail ∨ remaining ≠ 0 then some (none, expectedId) else some (some u, expectedId)

/-- What is accepted of fields, and of what is left behind them. -/
def bodyResult (h : Header) (expectedId : Option UInt64) :
    Option (Unpacked × List UInt8) → Option Unpacked × Option UInt64
  | none => (none, expectedId)
  | some (u, rest) =>
    if rest.length = (if isSigned h.type then signatureSize else 0) then (some u, expectedId)
    else (none, expectedId)

theorem decodeBody_of_ends {h : Header} {type : PacketType} (hlen : headerSize ≤ packet.length)
    (hends : FieldsEndWithinAddress type (packet.drop headerSize)) :
    decodeBody packet h type expectedId = none :=
  congrArg (Option.bind · _) ((tracks_decodeFields (.ofHeader type h)).leaves _ _ hlen hends)

theorem decodeBody_of_not_ends {h : Header} {type : PacketType}
    (hlen : headerSize ≤ packet.length)
    (hends : ¬FieldsEndWithinAddress type (packet.drop headerSize)) :
    decodeBody packet h type expectedId = some (bodyResult h expectedId
      (unpackFields (.ofHeader type h) (packet.drop headerSize))) := by
  have hagrees := (tracks_decodeFields (.ofHeader type h)).agrees packet headerSize hlen hends
  unfold decodeBody
  cases hread : unpackFields (.ofHeader type h) (packet.drop headerSize) with
  | none =>
    rw [hread] at hagrees
    obtain ⟨u, base, -, hrun⟩ := hagrees
    rw [hrun]
    rfl
  | some r =>
    obtain ⟨u, rest⟩ := r
    rw [hread] at hagrees
    obtain ⟨base, hbase, hrun, hrest⟩ := hagrees
    have hlength : rest.length = packet.length - base := by rw [← hrest, List.length_drop]
    rw [hrun]
    change (if false = true ∨ (packet.length : ℤ) - base -
        (if isSigned h.type then signatureSize else 0 : ℕ) ≠ 0 then some (none, expectedId)
      else some (some u, expectedId)) = some
        (if rest.length = (if isSigned h.type then signatureSize else 0) then (some u, expectedId)
        else (none, expectedId))
    have hremaining : (packet.length : ℤ) - base -
        (if isSigned h.type then signatureSize else 0 : ℕ) ≠ 0 ↔
          rest.length ≠ if isSigned h.type then signatureSize else 0 := by
      omega
    by_cases hfull : rest.length = if isSigned h.type then signatureSize else 0
    · rw [if_pos hfull,
        if_neg (not_or.2 ⟨Bool.false_ne_true, fun hne => hremaining.1 hne hfull⟩)]
    · rw [if_neg hfull, if_pos (.inr (hremaining.2 hfull))]

theorem pxdUnpack_of_header (hlen : headerSize ≤ packet.length) {h : Header}
    (hlengths : decodeLengths packet ⟨0, false⟩ = some ((h.checkLength, h.length), ⟨4, false⟩))
    (hids : decodeIds h.checkLength h.length packet ⟨4, false⟩ =
      some (h, ⟨headerSize, false⟩)) :
    pxdUnpack packet expectedId tag =
      if ~~~h.checkLength ≠ h.length then some (none, expectedId)
      else if packet.length ≠ h.length.toNat then some (none, expectedId)
      else if expectedId.any fun expected => h.sequenceId ≠ expected then some (none, expectedId)
      else if h.userId ≠ tag then some (none, expectedId.map (· + 1))
      else (ofCode h.type).elim (some (some (.ofHeader sendPing h), expectedId.map (· + 1)))
        fun type => decodeBody packet h type (expectedId.map (· + 1)) := by
  rw [pxdUnpack, if_neg (Nat.not_lt.2 hlen), hlengths]
  simp only [Option.bind_eq_bind, Option.bind_some, hids]
  cases ofCode h.type <;> rfl

/-- A packet is decoded as `unpack` decodes it, unless it ends within an address. -/
theorem pxdUnpack_eq_none_iff : pxdUnpack packet expectedId tag = none ↔
    PacketEndsWithinAddress packet expectedId tag := by
  by_cases hlen : headerSize ≤ packet.length
  · obtain ⟨h, hread, hlengths, hids⟩ := decodeHeader hlen
    have hends : PacketEndsWithinAddress packet expectedId tag ↔ ~~~h.checkLength = h.length ∧
        packet.length = h.length.toNat ∧ (∀ expected, expectedId = some expected →
          h.sequenceId = expected) ∧ h.userId = tag ∧ ∃ type, ofCode h.type = some type ∧
            FieldsEndWithinAddress type (packet.drop headerSize) := by
      constructor
      · rintro ⟨h', body, type, hread', hcheck, hlength, hsequence, htag, htype, hfields⟩
        obtain ⟨rfl, rfl⟩ := Prod.mk.inj (Option.some.inj (hread.symm.trans hread'))
        exact ⟨hcheck, hlength, hsequence, htag, type, htype, hfields⟩
      · rintro ⟨hcheck, hlength, hsequence, htag, type, htype, hfields⟩
        exact ⟨h, _, type, hread, hcheck, hlength, hsequence, htag, htype, hfields⟩
    have hany : (expectedId.any fun expected => h.sequenceId ≠ expected) = true ↔
        ¬∀ expected, expectedId = some expected → h.sequenceId = expected := by
      cases expectedId <;> simp
    rw [pxdUnpack_of_header hlen hlengths hids, hends]
    split_ifs with hcheck hlength hsequence htag
    · exact iff_of_false (by simp) fun h => hcheck h.1
    · exact iff_of_false (by simp) fun h => hlength h.2.1
    · exact iff_of_false (by simp) fun h => hany.1 hsequence h.2.2.1
    · exact iff_of_false (by simp) fun h => htag h.2.2.2.1
    · have hall := not_not.1 (mt hany.2 hsequence)
      cases htype : ofCode h.type with
      | none =>
        refine iff_of_false (by simp) ?_
        rintro ⟨-, -, -, -, type, hcode, -⟩
        cases hcode
      | some type =>
        by_cases hfields : FieldsEndWithinAddress type (packet.drop headerSize)
        · exact iff_of_true (decodeBody_of_ends hlen hfields)
            ⟨not_not.1 hcheck, not_not.1 hlength, hall, not_not.1 htag, type, rfl, hfields⟩
        · refine iff_of_false ?_ ?_
          · rw [Option.elim_some, decodeBody_of_not_ends hlen hfields]
            exact Option.some_ne_none _
          · rintro ⟨-, -, -, -, _, hcode, hends⟩
            exact hfields (Option.some.inj hcode ▸ hends)
  · rw [pxdUnpack, if_pos (Nat.not_le.1 hlen)]
    refine iff_of_false (by simp) ?_
    rintro ⟨h, body, type, hread, -⟩
    rw [unpackHeader_of_lt (Nat.not_le.1 hlen)] at hread
    cases hread

theorem pxdUnpack_eq_some {expected : UInt64} {r : Option Unpacked × Option UInt64}
    (h : pxdUnpack packet (some expected) tag = some r) :
    r = ((unpack packet expected tag).1, some (unpack packet expected tag).2) := by
  by_cases hlen : headerSize ≤ packet.length
  · obtain ⟨hd, hread, hlengths, hids⟩ := decodeHeader hlen
    rw [pxdUnpack_of_header hlen hlengths hids] at h
    unfold unpack
    rw [hread]
    simp only [Option.any_some, decide_eq_true_eq, Option.map_some] at h ⊢
    by_cases hcheck : ~~~hd.checkLength ≠ hd.length
    · rw [if_pos hcheck] at h ⊢
      exact (Option.some.inj h).symm
    rw [if_neg hcheck] at h ⊢
    by_cases hlength : packet.length ≠ hd.length.toNat
    · rw [if_pos hlength] at h ⊢
      exact (Option.some.inj h).symm
    rw [if_neg hlength] at h ⊢
    by_cases hsequence : hd.sequenceId ≠ expected
    · rw [if_pos hsequence] at h ⊢
      exact (Option.some.inj h).symm
    rw [if_neg hsequence] at h ⊢
    by_cases htag : hd.userId ≠ tag
    · rw [if_pos htag] at h ⊢
      exact (Option.some.inj h).symm
    rw [if_neg htag] at h ⊢
    cases htype : ofCode hd.type with
    | none =>
      rw [htype] at h
      exact (Option.some.inj h).symm
    | some type =>
      rw [htype, Option.elim_some] at h
      dsimp only
      by_cases hends : FieldsEndWithinAddress type (packet.drop headerSize)
      · rw [decodeBody_of_ends hlen hends] at h
        cases h
      · rw [decodeBody_of_not_ends hlen hends] at h
        rw [← Option.some.inj h]
        generalize unpackFields (.ofHeader type hd) (packet.drop headerSize) = fields
        obtain _ | ⟨u, rest⟩ := fields
        · rfl
        · dsimp only [bodyResult]
          generalize (if isSigned hd.type then signatureSize else 0) = left
          by_cases hfull : rest.length = left
          · rw [if_pos hfull, if_pos hfull]
          · rw [if_neg hfull, if_neg hfull]
  · rw [pxdUnpack, if_pos (Nat.not_le.1 hlen)] at h
    rw [← Option.some.inj h, unpack, unpackHeader_of_lt (Nat.not_le.1 hlen)]

end Packet

/-! ## ANS messages -/

/-- The fields of a message, read from a list. -/
def unpackAns : Unpack AnsUnpacked := do
  let type ← unpackU16
  if type = pxdConnectRequest then
    let userId ← unpackU64
    let deviceId ← unpackU64
    let instanceId ← unpackString
    let requestId ← unpackU64
    let pxdDns ← unpackString
    let serverInstance ← unpackString
    let addressCount ← unpackU16
    let addresses ← findAddresses addressCount.toNat
    return {
      type := type
      userId := some userId
      deviceId := some deviceId
      instanceId := some instanceId
      requestId := some requestId
      pxdDns := some pxdDns
      serverInstance := some serverInstance
      addresses := some addresses }
  else if type = pxdWakeup then
    let instanceId ← unpackString
    return { type := type, instanceId := some instanceId }
  else fun _ => none

/-- The number of addresses of a connect request, behind the fields in front of it. -/
def unpackConnectCount : Unpack UInt16 := do
  let _userId ← unpackU64
  let _deviceId ← unpackU64
  let _instanceId ← unpackString
  let _requestId ← unpackU64
  let _pxdDns ← unpackString
  let _serverInstance ← unpackString
  unpackU16

/-- The message is a connect request, and what is said of the number and the bytes of its
addresses holds. -/
def ConnectAddresses (P : ℕ → List UInt8 → Prop) : List UInt8 → Prop :=
  After unpackU16 fun type rest =>
    type = pxdConnectRequest ∧ After unpackConnectCount (fun count => P count.toNat) rest

theorem tracks_findAddresses {α : Type} (n : ℕ) (f : List FoundAddress → α) :
    Tracks (decodeAddresses n >>= fun found => pure (f found))
      (findAddresses n >>= fun found => pure (f found)) (EndsWithinAddress n) := by
  refine ((tracks_decodeAddresses n).bind fun found => .pure _).congr fun bs => ?_
  rw [← leavesAddresses_iff]
  simp [After]

theorem tracks_decodeAns : Tracks decodeAns unpackAns (ConnectAddresses EndsWithinAddress) := by
  refine follows_decodeU16.bind_tracks fun type => ?_
  by_cases hconnect : type = pxdConnectRequest
  · have htracks (userId deviceId instanceId requestId pxdDns serverInstance) (count : UInt16) :=
      tracks_findAddresses count.toNat fun addresses => ({
        type := type
        userId := some userId
        deviceId := some deviceId
        instanceId := some instanceId
        requestId := some requestId
        pxdDns := some pxdDns
        serverInstance := some serverInstance
        addresses := some addresses } : AnsUnpacked)
    have hfields := follows_decodeU64.bind_tracks fun userId =>
      follows_decodeU64.bind_tracks fun deviceId =>
      follows_decodeString.bind_tracks fun instanceId =>
      follows_decodeU64.bind_tracks fun requestId =>
      follows_decodeString.bind_tracks fun pxdDns =>
      follows_decodeString.bind_tracks fun serverInstance =>
      follows_decodeU16.bind_tracks fun count =>
      htracks userId deviceId instanceId requestId pxdDns serverInstance count
    rw [if_pos hconnect, if_pos hconnect]
    refine hfields.congr fun bs => (and_iff_right hconnect).trans ?_
    simp only [unpackConnectCount, after_bind]
  · rw [if_neg hconnect, if_neg hconnect]
    have hfields : Follows
        (if type = pxdWakeup then do
          let instanceId ← decodeString
          return ({ type := type, instanceId := some instanceId } : AnsUnpacked)
        else do
          failIf true
          return { type := type })
        (if type = pxdWakeup then do
          let instanceId ← unpackString
          return { type := type, instanceId := some instanceId }
        else fun _ => none) := by
      split
      · exact follows_decodeString.bind fun _ => .pure _
      · exact .fail _
    exact hfields.congr fun bs => iff_of_false (fun h => hconnect h.1) not_false

section Ans

variable {buffer : List UInt8} {u : AnsUnpacked}

theorem pxdUnpackAns_eq_none_iff :
    pxdUnpackAns buffer = none ↔ ConnectAddresses EndsWithinAddress buffer := by
  by_cases hends : ConnectAddresses EndsWithinAddress buffer
  · refine iff_of_true ?_ hends
    exact congrArg (Option.bind · _) (tracks_decodeAns.leaves buffer 0 (Nat.zero_le _) hends)
  · refine iff_of_false ?_ hends
    obtain ⟨u, c, hrun⟩ := (tracks_decodeAns.agrees buffer 0 (Nat.zero_le _) hends).exists_eq
    unfold pxdUnpackAns
    rw [hrun]
    change ¬(if _ then some none else some (some u)) = none
    split <;> exact Option.some_ne_none _

/-- What is accepted has been read to its end. -/
theorem unpackAns_of_accepted (h : pxdUnpackAns buffer = some (some u)) :
    unpackAns buffer = some (u, []) := by
  have hends : ¬ConnectAddresses EndsWithinAddress buffer := by
    rw [← pxdUnpackAns_eq_none_iff, h]
    exact Option.some_ne_none _
  have hagrees := tracks_decodeAns.agrees buffer 0 (Nat.zero_le _) hends
  unfold pxdUnpackAns at h
  rw [List.drop_zero] at hagrees
  cases hread : unpackAns buffer with
  | none =>
    rw [hread] at hagrees
    obtain ⟨v, base, -, hrun⟩ := hagrees
    rw [hrun] at h
    cases h
  | some r =>
    obtain ⟨v, rest⟩ := r
    rw [hread] at hagrees
    obtain ⟨base, -, hrun, rfl⟩ := hagrees
    rw [hrun] at h
    change (if false = true ∨ buffer.length ≠ base then some none else some (some v)) = _ at h
    split at h
    · cases h
    · next hend =>
      obtain rfl := Option.some.inj (Option.some.inj h)
      rw [← not_not.1 (not_or.1 hend).2, List.drop_length]

end Ans

/-! ## Handling a message -/

/-- All that is left of the last address behind its ip is one byte, which is read as its type;
there is nothing to read the port from. -/
def PortCutOff (count : ℕ) (bytes : List UInt8) : Prop :=
  ∃ (addresses : List Address) (ip : List UInt8) (type : UInt8), addresses.length + 1 = count ∧
    (∀ a ∈ addresses, a.ipAddress.length < 65536) ∧ ip.length < 65536 ∧ 2 ≤ ip.length ∧
    bytes = (addresses.flatMap addressPieces).flatten ++ (bytesPiece ip ++ [type])

theorem findAddress_of_cutOff {ip : List UInt8} (type : UInt8) (hip : ip.length < 65536)
    (hlong : 2 ≤ ip.length) :
    findAddress (bytesPiece ip ++ [type]) = some (⟨ip, none, type⟩, []) := by
  refine (findAddress_of_lt (takes_bytesPiece hip [type]) ?_ (by simp)).trans rfl
  rw [List.length_append, Unpacked.length_bytesPiece, packedBytesLength]
  simp only [List.length_singleton]
  omega

/-- Of addresses that fill the buffer, only the last one can lack its port. -/
theorem exists_port_eq_none_iff {n : ℕ} {bs : List UInt8} {found : List FoundAddress}
    (h : findAddresses n bs = some (found, [])) :
    (∃ a ∈ found, a.port = none) ↔ PortCutOff n bs := by
  induction n generalizing bs found with
  | zero =>
    obtain ⟨rfl, -⟩ := Prod.mk.inj (Option.some.inj h)
    refine iff_of_false (by simp) ?_
    rintro ⟨addresses, ip, type, hcount, -⟩
    omega
  | succ n ih =>
    obtain ⟨⟨a, rest⟩, hfirst, h⟩ := Option.bind_eq_some_iff.1 h
    obtain ⟨⟨found', rest'⟩, hrest, h⟩ := Option.bind_eq_some_iff.1 h
    obtain ⟨rfl, rfl⟩ := Prod.mk.inj (Option.some.inj h)
    have hcons : (∃ b ∈ a :: found', b.port = none) ↔
        a.port = none ∨ ∃ b ∈ found', b.port = none := by simp
    rw [hcons]
    obtain ⟨hport, hlen, hbs⟩ | ⟨hport, hlen, hshort, hfive, hbs⟩ := of_findAddress hfirst
    · have hsome : ¬a.port = none := fun hnone => by
        rw [hnone] at hport
        cases hport
      rw [or_iff_right hsome, ih hrest]
      constructor
      · rintro ⟨addresses, ip, type, hcount, hips, hip, hlong, hbytes⟩
        refine ⟨a.address :: addresses, ip, type, congrArg (· + 1) hcount,
          List.forall_mem_cons.2 ⟨hlen, hips⟩, hip, hlong, ?_⟩
        rw [hbs, hbytes, List.flatMap_cons, List.flatten_append, List.append_assoc]
      · rintro ⟨addresses, ip, type, hcount, hips, hip, hlong, hbytes⟩
        cases addresses with
        | nil =>
          have hcut := findAddress_of_cutOff type hip hlong
          have hbytes : bs = bytesPiece ip ++ [type] := hbytes
          rw [← hbytes, hfirst] at hcut
          obtain ⟨rfl, -⟩ := Prod.mk.inj (Option.some.inj hcut)
          cases hport
        | cons b addresses =>
          obtain ⟨hb, hips⟩ := List.forall_mem_cons.1 hips
          rw [List.flatMap_cons, List.flatten_append, List.append_assoc] at hbytes
          have htakes := takes_findAddress hb
            ((addresses.flatMap addressPieces).flatten ++ (bytesPiece ip ++ [type]))
          rw [← hbytes, hfirst] at htakes
          obtain ⟨-, rfl⟩ := Prod.mk.inj (Option.some.inj htakes)
          exact ⟨addresses, ip, type, Nat.succ_injective hcount, hips, hip, hlong, rfl⟩
    · refine iff_of_true (.inl hport) ?_
      cases n with
      | zero =>
        obtain ⟨-, rfl⟩ := Prod.mk.inj (Option.some.inj hrest)
        refine ⟨[], a.ipAddress, a.type, rfl, by simp, hlen, ?_, hbs⟩
        rw [hbs, List.length_append, Unpacked.length_bytesPiece, packedBytesLength] at hfive
        simp only [List.length_singleton] at hfive
        omega
      | succ n =>
        obtain ⟨⟨b, rest''⟩, hnext, -⟩ := Option.bind_eq_some_iff.1 hrest
        obtain ⟨⟨ip, tail⟩, -, hnext⟩ := Option.bind_eq_some_iff.1 hnext
        have hnone := hnext.symm.trans (if_pos (by omega))
        cases hnone

/-- The fields that a connect request has; the number of its addresses is `count`. -/
structure ConnectFields (u : AnsUnpacked) (found : List FoundAddress) : Prop where
  userId : u.userId.isSome
  deviceId : u.deviceId.isSome
  instanceId : u.instanceId.isSome
  requestId : u.requestId.isSome
  pxdDns : u.pxdDns.isSome
  serverInstance : ∃ string, u.serverInstance = some (cString string)
  addresses : u.addresses = some found

theorem unpackAns_cases {buffer : List UInt8} {u : AnsUnpacked}
    (h : unpackAns buffer = some (u, [])) :
    (∃ rest count rest' found, unpackU16 buffer = some (pxdConnectRequest, rest) ∧
      unpackConnectCount rest = some (count, rest') ∧
      findAddresses count.toNat rest' = some (found, []) ∧ ConnectFields u found) ∨
    (∃ rest, unpackU16 buffer = some (pxdWakeup, rest)) ∧ u.serverInstance = none := by
  obtain ⟨⟨type, rest⟩, htype, h⟩ := Option.bind_eq_some_iff.1 h
  dsimp only at h
  by_cases hconnect : type = pxdConnectRequest
  · rw [if_pos hconnect] at h
    obtain ⟨⟨userId, bs₁⟩, h₁, h⟩ := Option.bind_eq_some_iff.1 h
    obtain ⟨⟨deviceId, bs₂⟩, h₂, h⟩ := Option.bind_eq_some_iff.1 h
    obtain ⟨⟨instanceId, bs₃⟩, h₃, h⟩ := Option.bind_eq_some_iff.1 h
    obtain ⟨⟨requestId, bs₄⟩, h₄, h⟩ := Option.bind_eq_some_iff.1 h
    obtain ⟨⟨pxdDns, bs₅⟩, h₅, h⟩ := Option.bind_eq_some_iff.1 h
    obtain ⟨⟨serverInstance, bs₆⟩, h₆, h⟩ := Option.bind_eq_some_iff.1 h
    obtain ⟨⟨count, bs₇⟩, h₇, h⟩ := Option.bind_eq_some_iff.1 h
    obtain ⟨⟨found, bs₈⟩, h₈, h⟩ := Option.bind_eq_some_iff.1 h
    obtain ⟨rfl, rfl⟩ := Prod.mk.inj (Option.some.inj h)
    obtain ⟨string, -, hstring⟩ := Unpacked.of_map_eq_some h₆
    refine .inl ⟨rest, count, bs₇, found, hconnect ▸ htype, ?_, h₈, rfl, rfl, rfl, rfl, rfl,
      ⟨string, congrArg some hstring.symm⟩, rfl⟩
    refine Option.bind_eq_some_iff.2 ⟨_, h₁, Option.bind_eq_some_iff.2 ⟨_, h₂, ?_⟩⟩
    refine Option.bind_eq_some_iff.2 ⟨_, h₃, Option.bind_eq_some_iff.2 ⟨_, h₄, ?_⟩⟩
    exact Option.bind_eq_some_iff.2 ⟨_, h₅, Option.bind_eq_some_iff.2 ⟨_, h₆, h₇⟩⟩
  · rw [if_neg hconnect] at h
    by_cases hwakeup : type = pxdWakeup
    · rw [if_pos hwakeup] at h
      obtain ⟨⟨instanceId, rest'⟩, -, h⟩ := Option.bind_eq_some_iff.1 h
      obtain ⟨rfl, -⟩ := Prod.mk.inj (Option.some.inj h)
      exact .inr ⟨⟨rest, hwakeup ▸ htype⟩, rfl⟩
    · rw [if_neg hwakeup] at h
      cases h

theorem isSome_mapM_iff {α β : Type} {f : α → Option β} {as : List α} :
    (as.mapM f).isSome ↔ ∀ a ∈ as, (f a).isSome := by
  induction as with
  | nil => simp
  | cons a as ih =>
    rw [List.mapM_cons, List.forall_mem_cons, ← ih]
    cases f a <;> cases as.mapM f <;> simp

/-- The fields of a connect request are all there, but for a port. -/
theorem receiveUnpacked_ne_none_iff {u : AnsUnpacked} {found : List FoundAddress}
    (h : ConnectFields u found) : (∀ client, receiveUnpacked client u ≠ none) ↔
      ¬∃ a ∈ found, a.port = none := by
  obtain ⟨string, hserver⟩ := h.serverInstance
  obtain ⟨userId, huserId⟩ := Option.isSome_iff_exists.1 h.userId
  obtain ⟨deviceId, hdeviceId⟩ := Option.isSome_iff_exists.1 h.deviceId
  obtain ⟨instanceId, hinstanceId⟩ := Option.isSome_iff_exists.1 h.instanceId
  obtain ⟨requestId, hrequestId⟩ := Option.isSome_iff_exists.1 h.requestId
  obtain ⟨pxdDns, hpxdDns⟩ := Option.isSome_iff_exists.1 h.pxdDns
  have hrun (client : AnsClient) : receiveUnpacked client u =
      if cString string ≠ cString client.instanceId then some .otherInstance
      else (found.mapM fun a : FoundAddress => a.port.bind fun port =>
        some (⟨a.ipAddress, port, a.type⟩ : Address)).bind fun addresses =>
          some (.opened ⟨addresses, pxdDns, userId, deviceId, requestId, instanceId⟩) := by
    simp only [receiveUnpacked, hserver, h.addresses, hpxdDns, huserId, hdeviceId, hrequestId,
      hinstanceId, Option.bind_eq_bind, Option.bind_some]
  have hports : (found.mapM fun a : FoundAddress => a.port.bind fun port =>
      some (⟨a.ipAddress, port, a.type⟩ : Address)).isSome ↔ ¬∃ a ∈ found, a.port = none := by
    rw [isSome_mapM_iff, not_exists]
    refine forall_congr' fun a => ?_
    cases a.port <;> simp
  rw [← hports]
  constructor
  · intro hall
    have hself := hall ⟨true, true, string⟩
    rw [hrun, if_neg (not_not.2 rfl)] at hself
    rw [Option.isSome_iff_ne_none]
    intro hnone
    rw [hnone] at hself
    exact hself rfl
  · intro hsome client
    obtain ⟨addresses, haddresses⟩ := Option.isSome_iff_exists.1 hsome
    rw [hrun, haddresses]
    split <;> exact Option.some_ne_none _

theorem take_two_of_unpackU16 {bs rest : List UInt8} {v : UInt16}
    (h : unpackU16 bs = some (v, rest)) : bs.take 2 = toBytes 2 v.toNat := by
  obtain ⟨w, hw, rfl⟩ := Unpacked.of_map_eq_some h
  have hlen := Unpacked.length_of_unpackU hw
  have htake : (bs.take 2).length = 2 := by
    rw [List.length_take]
    omega
  have hlt : ofBytes (bs.take 2) < 65536 := by
    have := ofBytes_lt (bs.take 2)
    rwa [htake] at this
  rw [unpackU, if_neg (by omega)] at hw
  obtain ⟨rfl, -⟩ := Prod.mk.inj (Option.some.inj hw)
  have hback := toBytes_ofBytes (bs.take 2)
  rw [htake] at hback
  rw [UInt16.toNat_ofNat', Nat.mod_eq_of_lt hlt, hback]

/-- A message is received safely if it is a connect request whose last port is there. -/
theorem pxdReceive_ne_none_iff {buffer : List UInt8} {u : AnsUnpacked}
    (h : pxdUnpackAns buffer = some (some u)) : (∀ client, pxdReceive client buffer ≠ none) ↔
      buffer.take 2 = [0, 1] ∧ ¬ConnectAddresses PortCutOff buffer := by
  have hrun (client : AnsClient) : pxdReceive (some client) buffer =
      if ¬client.isOpen then some .invalid
      else if ¬client.isIncoming then some .invalid
      else receiveUnpacked client u := by
    rw [pxdReceive, h]
    rfl
  have hreceive : (∀ client, pxdReceive client buffer ≠ none) ↔
      ∀ client, receiveUnpacked client u ≠ none := by
    constructor
    · intro hall client
      have hopen := hall (some { client with isOpen := true, isIncoming := true })
      rwa [hrun] at hopen
    · rintro hall (_ | client)
      · exact Option.some_ne_none _
      · rw [hrun]
        split
        · exact Option.some_ne_none _
        · split
          · exact Option.some_ne_none _
          · exact hall client
  rw [hreceive]
  obtain ⟨rest, count, rest', found, htype, hcount, hfound, hfields⟩ | ⟨⟨rest, htype⟩, hnone⟩ :=
    unpackAns_cases (unpackAns_of_accepted h)
  · have hcut : ConnectAddresses PortCutOff buffer ↔ PortCutOff count.toNat rest' := by
      constructor
      · rintro ⟨type, bs, hbs, -, n, bs', hn, hcut⟩
        obtain ⟨-, rfl⟩ := Prod.mk.inj (Option.some.inj (htype.symm.trans hbs))
        obtain ⟨rfl, rfl⟩ := Prod.mk.inj (Option.some.inj (hcount.symm.trans hn))
        exact hcut
      · intro hcut
        exact ⟨_, _, htype, rfl, _, _, hcount, hcut⟩
    have htwo : buffer.take 2 = [0, 1] := take_two_of_unpackU16 htype
    rw [receiveUnpacked_ne_none_iff hfields, exists_port_eq_none_iff hfound, hcut,
      and_iff_right htwo]
  · refine iff_of_false (fun hall => hall ⟨true, true, []⟩ ?_) fun hconnect => ?_
    · rw [receiveUnpacked, hnone]
      rfl
    · have htwo := (take_two_of_unpackU16 htype).symm.trans hconnect.1
      exact absurd htwo (by decide)

/-! ## Reading a packet from a socket -/

theorem storeAt_middle (front middle back : List UInt8) {bytes : List UInt8}
    (h : bytes.length = middle.length) :
    storeAt (front ++ (middle ++ back)) front.length bytes = some (front ++ bytes ++ back) := by
  rw [storeAt, if_pos (by simp only [List.length_append]; omega), writeAt_middle h,
    List.append_assoc]

/-- What is read of the socket is stored where it belongs. -/
theorem syncReadInto_eq (tries : ℕ) (s : Socket) (front back : List UInt8) :
    syncReadInto tries s (front ++ back) front.length back.length =
      some ((syncIo tries s back.length).map fun r => (front ++ r.1, r.2)) := by
  induction s generalizing tries front back with
  | nil => rfl
  | cons arrival s ih =>
    cases arrival with
    | again =>
      rw [syncReadInto, syncIo]
      split
      · rfl
      · exact ih _ _ _
    | failed => rfl
    | bytes data =>
      rw [syncReadInto, syncIo]
      dsimp only
      set count := min data.length back.length with hcount
      split
      · rfl
      · have hstore : storeAt (front ++ back) front.length (data.take count) =
            some (front ++ data.take count ++ back.drop count) := by
          have hmiddle : (data.take count).length = (back.take count).length := by
            rw [List.length_take, List.length_take]
            omega
          have h := storeAt_middle front _ (back.drop count) hmiddle
          rwa [List.take_append_drop] at h
        rw [hstore]
        change (if count < back.length then _ else _) = _
        by_cases hmore : count < back.length
        · have htake : data.take count = data := List.take_of_length_le (by omega)
          have hrest := ih tries (front ++ data.take count) (back.drop count)
          have hoffset : (front ++ data.take count).length = front.length + count := by
            rw [List.length_append, List.length_take]
            omega
          rw [hoffset, List.length_drop] at hrest
          rw [if_pos hmore, if_pos hmore, hrest, htake]
          cases syncIo tries s (back.length - count) with
          | error e => rfl
          | ok r => simp [Except.map, bind, Except.bind]
        · have hnone : back.drop count = [] := List.drop_eq_nil_of_le (by omega)
          rw [if_neg hmore, if_neg hmore, hnone, List.append_nil]
          split
          · rfl
          · rw [List.take_of_length_le (by omega)]
            rfl

theorem length_of_syncIo {tries remaining : ℕ} {s s' : Socket} {bytes : List UInt8}
    (h : syncIo tries s remaining = .ok (bytes, s')) : bytes.length = remaining := by
  induction s generalizing tries remaining bytes s' with
  | nil => cases h
  | cons arrival s ih =>
    cases arrival with
    | again =>
      rw [syncIo] at h
      split at h
      · cases h
      · exact ih h
    | failed => cases h
    | bytes data =>
      rw [syncIo] at h
      dsimp only at h
      split at h
      · cases h
      · split at h
        · obtain ⟨⟨rest, s₁⟩, hrest, h⟩ := exists_of_bind_eq_ok h
          obtain ⟨rfl, -⟩ := Prod.mk.inj (Except.ok.inj h)
          have hlen := ih hrest
          rw [List.length_append, hlen]
          omega
        · split at h
          · obtain ⟨rfl, -⟩ := Prod.mk.inj (Except.ok.inj h)
            rw [List.length_take]
            omega
          · obtain ⟨rfl, -⟩ := Prod.mk.inj (Except.ok.inj h)
            omega

section SyncRead

variable {limits : Limits} {s : Socket} {expected : Option PacketType} {sequence tag : UInt64}

/-- The size that the first two bytes of a packet announce. -/
def announcedSize (sizeBuffer : List UInt8) : ℕ :=
  (~~~UInt16.ofNat (ofBytes sizeBuffer)).toNat

/-- The socket announces a packet of less than two bytes, or delivers one that ends within an
address. -/
def SyncReadOverruns (limits : Limits) (s : Socket) (sequence tag : UInt64) : Prop :=
  ∃ sizeBuffer s', syncIo limits.tries s 2 = .ok (sizeBuffer, s') ∧
    announcedSize sizeBuffer ≤ limits.packetLimit ∧ (announcedSize sizeBuffer < 2 ∨
      ∃ rest s'', syncIo limits.tries s' (announcedSize sizeBuffer - 2) = .ok (rest, s'') ∧
        PacketEndsWithinAddress (sizeBuffer ++ rest) (some sequence) tag)

theorem syncReadInto_size : syncReadInto limits.tries s (List.replicate 2 0) 0 2 =
    some (syncIo limits.tries s 2) := by
  have h := syncReadInto_eq limits.tries s [] (List.replicate 2 0)
  rw [List.length_replicate] at h
  refine h.trans (congrArg some ?_)
  cases syncIo limits.tries s 2 <;> rfl

/-- What is left to do once the size is known. -/
def readBehindSize (limits : Limits) (s : Socket) (expected : Option PacketType)
    (sequence tag : UInt64) (sizeBuffer : List UInt8) : Option (Except UInt64 Received) := do
  match ← syncReadInto limits.tries s
      (sizeBuffer ++ List.replicate (announcedSize sizeBuffer - 2) 0) 2
      (announcedSize sizeBuffer - 2) with
  | .error result => some (.error result)
  | .ok (packet, s) =>
    match ← pxdUnpack packet (some sequence) tag with
    | (none, _) => some (.error pxdOpFailed)
    | (some u, sequence') =>
      if isExpected expected u.type then some (.ok ⟨u, packet, s, sequence'.getD sequence⟩)
      else some (.error pxdOpFailed)

theorem pxdSyncReadPacket_of_error {e : UInt64} (h : syncIo limits.tries s 2 = .error e) :
    pxdSyncReadPacket limits s expected sequence tag = some (.error e) := by
  rw [pxdSyncReadPacket, syncReadInto_size, h]
  rfl

theorem pxdSyncReadPacket_of_ok {sizeBuffer : List UInt8} {s' : Socket}
    (h : syncIo limits.tries s 2 = .ok (sizeBuffer, s')) :
    pxdSyncReadPacket limits s expected sequence tag =
      if announcedSize sizeBuffer > limits.packetLimit then some (.error pxdOpFailed)
      else if announcedSize sizeBuffer < 2 then none
      else readBehindSize limits s' expected sequence tag sizeBuffer := by
  have hlen := length_of_syncIo h
  rw [pxdSyncReadPacket, syncReadInto_size, h]
  change (if announcedSize sizeBuffer > limits.packetLimit then _ else _) = _
  by_cases hlimit : announcedSize sizeBuffer > limits.packetLimit
  · rw [if_pos hlimit, if_pos hlimit]
  rw [if_neg hlimit, if_neg hlimit]
  by_cases hsmall : announcedSize sizeBuffer < 2
  · have hstore : storeAt (List.replicate (announcedSize sizeBuffer) 0) 0 sizeBuffer = none := by
      rw [storeAt, if_neg (by rw [List.length_replicate]; omega)]
    rw [if_pos hsmall]
    exact congrArg (Option.bind · _) hstore
  · have hstore : storeAt (List.replicate (announcedSize sizeBuffer) 0) 0 sizeBuffer =
        some (sizeBuffer ++ List.replicate (announcedSize sizeBuffer - 2) 0) := by
      have hsplit : List.replicate (announcedSize sizeBuffer) (0 : UInt8) =
          List.replicate 2 0 ++ List.replicate (announcedSize sizeBuffer - 2) 0 := by
        rw [List.replicate_append_replicate]
        congr 1
        omega
      have hmiddle : sizeBuffer.length = (List.replicate 2 (0 : UInt8)).length := by
        rw [hlen, List.length_replicate]
      rw [hsplit]
      exact storeAt_middle [] _ _ hmiddle
    rw [if_neg hsmall]
    exact congrArg (Option.bind · _) hstore

theorem readBehindSize_of_error {sizeBuffer : List UInt8} {e : UInt64}
    (hlen : sizeBuffer.length = 2)
    (h : syncIo limits.tries s (announcedSize sizeBuffer - 2) = .error e) :
    readBehindSize limits s expected sequence tag sizeBuffer = some (.error e) := by
  have hread := syncReadInto_eq limits.tries s sizeBuffer
    (List.replicate (announcedSize sizeBuffer - 2) 0)
  rw [hlen, List.length_replicate, h] at hread
  rw [readBehindSize, hread]
  rfl

/-- What becomes of a packet that was decoded. -/
def received (expected : Option PacketType) (s : Socket) (sequence : UInt64)
    (packet : List UInt8) : Option Unpacked × Option UInt64 → Except UInt64 Received
  | (none, _) => .error pxdOpFailed
  | (some u, sequence') =>
    if isExpected expected u.type then .ok ⟨u, packet, s, sequence'.getD sequence⟩
    else .error pxdOpFailed

theorem readBehindSize_of_ok {sizeBuffer rest : List UInt8} {s' : Socket}
    (hlen : sizeBuffer.length = 2)
    (h : syncIo limits.tries s (announcedSize sizeBuffer - 2) = .ok (rest, s')) :
    readBehindSize limits s expected sequence tag sizeBuffer =
      (pxdUnpack (sizeBuffer ++ rest) (some sequence) tag).map
        (received expected s' sequence (sizeBuffer ++ rest)) := by
  have hread := syncReadInto_eq limits.tries s sizeBuffer
    (List.replicate (announcedSize sizeBuffer - 2) 0)
  rw [hlen, List.length_replicate, h] at hread
  rw [readBehindSize, hread]
  change (pxdUnpack (sizeBuffer ++ rest) (some sequence) tag).bind _ = _
  cases pxdUnpack (sizeBuffer ++ rest) (some sequence) tag with
  | none => rfl
  | some r =>
    obtain ⟨_ | u, sequence'⟩ := r
    · rfl
    · exact (apply_ite some _ _ _).symm

theorem pxdSyncReadPacket_eq_none_iff :
    pxdSyncReadPacket limits s expected sequence tag = none ↔
      SyncReadOverruns limits s sequence tag := by
  cases hsize : syncIo limits.tries s 2 with
  | error e =>
    rw [pxdSyncReadPacket_of_error hsize]
    refine iff_of_false (Option.some_ne_none _) ?_
    rintro ⟨sizeBuffer, s', h, -⟩
    rw [hsize] at h
    cases h
  | ok r =>
    obtain ⟨sizeBuffer, s'⟩ := r
    have hoverruns : SyncReadOverruns limits s sequence tag ↔
        announcedSize sizeBuffer ≤ limits.packetLimit ∧ (announcedSize sizeBuffer < 2 ∨
          ∃ rest s'', syncIo limits.tries s' (announcedSize sizeBuffer - 2) = .ok (rest, s'') ∧
            PacketEndsWithinAddress (sizeBuffer ++ rest) (some sequence) tag) := by
      constructor
      · rintro ⟨sizeBuffer', t, h, hrest⟩
        rw [hsize] at h
        obtain ⟨rfl, rfl⟩ := Prod.mk.inj (Except.ok.inj h)
        exact hrest
      · exact fun h => ⟨sizeBuffer, s', hsize, h⟩
    rw [pxdSyncReadPacket_of_ok hsize, hoverruns]
    by_cases hlimit : announcedSize sizeBuffer > limits.packetLimit
    · rw [if_pos hlimit]
      exact iff_of_false (Option.some_ne_none _) fun h => absurd h.1 (Nat.not_le.2 hlimit)
    rw [if_neg hlimit, and_iff_right (Nat.not_lt.1 hlimit)]
    by_cases hsmall : announcedSize sizeBuffer < 2
    · rw [if_pos hsmall]
      exact iff_of_true rfl (.inl hsmall)
    rw [if_neg hsmall, or_iff_right hsmall]
    have hlen := length_of_syncIo hsize
    cases hrest : syncIo limits.tries s' (announcedSize sizeBuffer - 2) with
    | error e =>
      rw [readBehindSize_of_error hlen hrest]
      refine iff_of_false (Option.some_ne_none _) ?_
      rintro ⟨rest, s'', h, -⟩
      cases h
    | ok r =>
      obtain ⟨rest, s''⟩ := r
      rw [readBehindSize_of_ok hlen hrest]
      have hends : (∃ rest' t, (.ok (rest, s'') : Except UInt64 (List UInt8 × Socket)) =
          .ok (rest', t) ∧ PacketEndsWithinAddress (sizeBuffer ++ rest') (some sequence) tag) ↔
            PacketEndsWithinAddress (sizeBuffer ++ rest) (some sequence) tag := by
        constructor
        · rintro ⟨rest', t, h, hends⟩
          obtain ⟨rfl, -⟩ := Prod.mk.inj (Except.ok.inj h)
          exact hends
        · exact fun hends => ⟨rest, s'', rfl, hends⟩
      rw [hends, ← pxdUnpack_eq_none_iff, Option.map_eq_none_iff]

/-- A packet is read as `syncReadPacket` reads it, unless it is one of these. -/
theorem pxdSyncReadPacket_eq_some {r : Except UInt64 Received}
    (h : pxdSyncReadPacket limits s expected sequence tag = some r) :
    r = syncReadPacket limits s expected sequence tag := by
  cases hsize : syncIo limits.tries s 2 with
  | error e =>
    rw [pxdSyncReadPacket_of_error hsize] at h
    rw [← Option.some.inj h, syncReadPacket, hsize]
    rfl
  | ok q =>
    obtain ⟨sizeBuffer, s'⟩ := q
    have hread : syncReadPacket limits s expected sequence tag =
        if announcedSize sizeBuffer > limits.packetLimit then .error pxdOpFailed
        else (syncIo limits.tries s' (announcedSize sizeBuffer - 2)).bind fun q =>
          received expected q.2 sequence (sizeBuffer ++ q.1)
            ((unpack (sizeBuffer ++ q.1) sequence tag).1,
              some (unpack (sizeBuffer ++ q.1) sequence tag).2) := by
      rw [syncReadPacket, hsize]
      change (if announcedSize sizeBuffer > limits.packetLimit then _ else _) = _
      refine if_congr Iff.rfl rfl ?_
      refine congrArg (Except.bind _) (funext fun q => ?_)
      obtain ⟨rest, s''⟩ := q
      dsimp only
      cases unpack (sizeBuffer ++ rest) sequence tag with
      | mk u sequence' => cases u <;> rfl
    rw [pxdSyncReadPacket_of_ok hsize] at h
    rw [hread]
    by_cases hlimit : announcedSize sizeBuffer > limits.packetLimit
    · rw [if_pos hlimit] at h ⊢
      exact (Option.some.inj h).symm
    rw [if_neg hlimit] at h ⊢
    by_cases hsmall : announcedSize sizeBuffer < 2
    · rw [if_pos hsmall] at h
      cases h
    rw [if_neg hsmall] at h
    have hlen := length_of_syncIo hsize
    cases hrest : syncIo limits.tries s' (announcedSize sizeBuffer - 2) with
    | error e =>
      rw [readBehindSize_of_error hlen hrest] at h
      exact (Option.some.inj h).symm
    | ok q =>
      obtain ⟨rest, s''⟩ := q
      rw [readBehindSize_of_ok hlen hrest] at h
      obtain ⟨q, hq, rfl⟩ := Option.map_eq_some_iff.1 h
      rw [pxdUnpack_eq_some hq]
      rfl

end SyncRead

/-! ## Safety -/

/-- The decoders stay within their buffers unless the input ends within an address or announces
less than two bytes. Of the messages that are accepted, the connect requests that have their
last port are received without using what was not decoded. -/
theorem decoders_safe_iff (packet buffer : List UInt8) (expectedId : Option UInt64)
    (tag sequence : UInt64) (limits : Limits) (s : Socket) (expected : Option PacketType) :
    (pxdUnpack packet expectedId tag ≠ none ↔ ¬PacketEndsWithinAddress packet expectedId tag) ∧
    (pxdUnpackAns buffer ≠ none ↔ ¬ConnectAddresses EndsWithinAddress buffer) ∧
    (pxdSyncReadPacket limits s expected sequence tag ≠ none ↔
      ¬SyncReadOverruns limits s sequence tag) ∧
    ∀ u, pxdUnpackAns buffer = some (some u) →
      ((∀ client, pxdReceive client buffer ≠ none) ↔
        buffer.take 2 = [0, 1] ∧ ¬ConnectAddresses PortCutOff buffer) :=
  ⟨not_congr pxdUnpack_eq_none_iff, not_congr pxdUnpackAns_eq_none_iff,
    not_congr pxdSyncReadPacket_eq_none_iff, fun _ h => pxdReceive_ne_none_iff h⟩

/-- A connect request with the given bytes in the place of its addresses. -/
def connectRequest (count : UInt8) (addresses : List UInt8) : List UInt8 :=
  [0, 1] ++ List.replicate 8 0 ++ List.replicate 8 1 ++ [0, 1, 97] ++ List.replicate 8 2 ++
    [0, 1, 98] ++ [0, 1, 99] ++ [0, count] ++ addresses

theorem decoders_safe_someRequest : ∃ u,
    pxdUnpackAns (connectRequest 1 [0, 4, 10, 0, 0, 1, 0, 0, 0, 80, 1]) = some (some u) ∧
      ((∀ client,
        pxdReceive client (connectRequest 1 [0, 4, 10, 0, 0, 1, 0, 0, 0, 80, 1]) ≠ none) ↔
        (connectRequest 1 [0, 4, 10, 0, 0, 1, 0, 0, 0, 80, 1]).take 2 = [0, 1] ∧
          ¬ConnectAddresses PortCutOff
            (connectRequest 1 [0, 4, 10, 0, 0, 1, 0, 0, 0, 80, 1])) := by
  have haccept : pxdUnpackAns (connectRequest 1 [0, 4, 10, 0, 0, 1, 0, 0, 0, 80, 1]) =
      some (some {
        type := pxdConnectRequest
        userId := some 0
        deviceId := some 0x0101010101010101
        instanceId := some [97]
        requestId := some 0x0202020202020202
        pxdDns := some [98]
        serverInstance := some [99]
        addresses := some [⟨[10, 0, 0, 1], some 80, 1⟩] }) := by
    decide +kernel
  exact ⟨_, haccept, (decoders_safe_iff [] _ none 0 0 ⟨8192, 1⟩ [] none).2.2.2 _ haccept⟩

/-- A declaration that ends with the ip of its only address. -/
def cutDeclaration : List UInt8 :=
  [255, 192, 0, 63, 0, 202] ++ List.replicate 24 0 ++
    -- version, region, user, device, instance and the two names
    [0, 3] ++ [0, 0] ++ List.replicate 16 0 ++ [0, 0] ++ [0, 0] ++ [0, 0] ++
      [0, 1] ++ [0, 3, 10, 0, 0]

/-- Reading behind the end, writing into a buffer that is too small, and using a string that was
not decoded. -/
theorem not_decoders_safe : pxdUnpack cutDeclaration none 0 = none ∧
    pxdUnpackAns (connectRequest 1 [0, 3, 10, 0, 0]) = none ∧
    (pxdSyncReadPacket ⟨8192, 1⟩ [.bytes [255, 255]] none 0 0).isNone ∧
    pxdUnpackAns [0, 2, 0, 1, 97] =
      some (some { type := pxdWakeup, instanceId := some [97] }) ∧
    pxdReceive (some ⟨true, true, [97]⟩) [0, 2, 0, 1, 97] = none := by
  decide +kernel

end PersonalCloud.Pxd
