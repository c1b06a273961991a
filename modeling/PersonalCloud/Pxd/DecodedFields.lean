import PersonalCloud.Pxd.Decoders
import PersonalCloud.Pxd.RoundTrip

/-!
# What the decoders make of fields

For fields behind checks the cursor cannot leave the buffer. The addresses are the exception: the
cursor passes the end when nothing, or just the port, is left behind an ip.

## Main results

* `tracks_decodeAddresses`, `leavesAddresses_iff` — on which bytes the walk over the addresses
  leaves the buffer.
* `tracks_decodeFields` — but for that, the fields of a type are decoded as `unpackFields`
  decodes them.
-/

namespace PersonalCloud.Pxd

open PersonalCloud.Lib PacketType Scan

/-! ## Fields -/

section DecodeU

variable {buf : List UInt8} {base n : ℕ}

theorem unpackU_drop (h : base + n ≤ buf.length) : unpackU n (buf.drop base) =
    some (ofBytes ((buf.drop base).take n), buf.drop (base + n)) := by
  rw [unpackU, List.length_drop, if_neg (by omega), List.drop_drop]

theorem decodeU_drop (h : base + n ≤ buf.length) : decodeU n buf ⟨base, false⟩ =
    some (ofBytes ((buf.drop base).take n), ⟨base + n, false⟩) := by
  refine (run_bind (lacks_of_le h) _).trans ?_
  change (load n >>= fun bytes => advance n >>= fun _ => pure (ofBytes bytes)) buf _ = _
  exact run_bind (load_of_le h) _

end DecodeU

theorem follows_decodeU (n : ℕ) : Follows (decodeU n) (unpackU n) where
  stuck buf base hbase := ⟨0, base, hbase, rfl⟩
  leaves _ _ _ h := h.elim
  agrees buf base hbase _ := by
    by_cases hshort : buf.length - base < n
    · have hread : unpackU n (buf.drop base) = none := by
        rw [unpackU, List.length_drop, if_pos hshort]
      rw [hread]
      exact ⟨0, base, hbase, run_bind (lacks_of_lt hbase hshort) _⟩
    · have hroom : base + n ≤ buf.length := by omega
      rw [unpackU_drop hroom]
      exact ⟨base + n, hroom, decodeU_drop hroom, rfl⟩

/-- For a byte it is looked whether the cursor is at the end. -/
theorem follows_decodeU8 : Follows decodeU8 unpackU8 where
  stuck buf base hbase := ⟨0, base, hbase, by cases h : decide (buf.length ≤ base) <;> rfl⟩
  leaves _ _ _ h := h.elim
  agrees buf base hbase _ := by
    by_cases hend : buf.length ≤ base
    · have hread : unpackU8 (buf.drop base) = none := by
        rw [List.drop_eq_nil_of_le hend]
        rfl
      have hatEnd : atEnd buf ⟨base, false⟩ = some (true, ⟨base, false⟩) := by
        rw [atEnd, decide_eq_true hend]
      rw [hread]
      exact ⟨0, base, hbase, run_bind hatEnd _⟩
    · have hroom : base + 1 ≤ buf.length := by omega
      have hread : unpackU8 (buf.drop base) =
          some (UInt8.ofNat (ofBytes ((buf.drop base).take 1)), buf.drop (base + 1)) := by
        have hlong : ¬(buf.drop base).length < 1 := by
          rw [List.length_drop]
          omega
        change (unpackU 1 (buf.drop base)).bind _ = _
        rw [unpackU, if_neg hlong, List.drop_drop]
        rfl
      have hatEnd : atEnd buf ⟨base, false⟩ = some (false, ⟨base, false⟩) := by
        rw [atEnd, decide_eq_false hend]
      rw [hread]
      refine ⟨base + 1, hroom, (run_bind hatEnd _).trans ?_, rfl⟩
      change (load 1 >>= fun bytes => advance 1 >>= fun _ =>
        pure (UInt8.ofNat (ofBytes bytes))) buf _ = _
      exact run_bind (load_of_le hroom) _

theorem follows_decodeU16 : Follows decodeU16 unpackU16 := (follows_decodeU 2).map _
theorem follows_decodeU32 : Follows decodeU32 unpackU32 := (follows_decodeU 4).map _
theorem follows_decodeU64 : Follows decodeU64 unpackU64 := (follows_decodeU 8).map _

/-! ## Arrays and strings -/

section Arrays

variable {buf bytes rest : List UInt8} {base : ℕ}

theorem decodeU16_drop (h : base + 2 ≤ buf.length) : decodeU16 buf ⟨base, false⟩ =
    some (UInt16.ofNat (ofBytes ((buf.drop base).take 2)), ⟨base + 2, false⟩) := by
  rw [decodeU16, ← bind_pure_comp]
  exact run_bind (decodeU_drop h) _

/-- What the first two bytes say. -/
def lengthAt (buf : List UInt8) (base : ℕ) : ℕ :=
  (UInt16.ofNat (ofBytes ((buf.drop base).take 2))).toNat

theorem unpackBytes_drop (h : base + 2 ≤ buf.length) :
    unpackBytes (buf.drop base) = if buf.length < base + 2 + lengthAt buf base then none
      else some ((buf.drop (base + 2)).take (lengthAt buf base),
        buf.drop (base + 2 + lengthAt buf base)) := by
  have hread : unpackU16 (buf.drop base) =
      some (UInt16.ofNat (ofBytes ((buf.drop base).take 2)), buf.drop (base + 2)) := by
    change (unpackU 2 (buf.drop base)).bind _ = _
    rw [unpackU_drop h]
    rfl
  change (unpackU16 (buf.drop base)).bind _ = _
  rw [hread]
  change (if _ then _ else _) = _
  simp only [List.length_drop, List.drop_drop]
  refine if_congr ?_ rfl rfl
  rw [lengthAt]
  omega

theorem peekLength_drop (h : base + 2 ≤ buf.length) (fail : Bool) :
    peekLength buf ⟨base, fail⟩ = some (if buf.length < base + 2 + lengthAt buf base then none
      else some (lengthAt buf base), ⟨base, fail⟩) := by
  have hread : peekLength buf ⟨base, fail⟩ =
      if false = true ∨ (buf.length : ℤ) - (base + 2 : ℕ) < lengthAt buf base then
        some (none, ⟨base, fail⟩)
      else some (some (lengthAt buf base), ⟨base, fail⟩) := by
    unfold peekLength
    rw [lacks_of_le h]
    change (decodeU16 buf ⟨base, false⟩).bind _ = _
    rw [decodeU16_drop h]
    rfl
  rw [hread]
  by_cases hlong : buf.length < base + 2 + lengthAt buf base
  · rw [if_pos hlong, if_pos (.inr (by omega))]
  · have hfits : ¬(buf.length : ℤ) - (base + 2 : ℕ) < lengthAt buf base := by omega
    rw [if_neg hlong, if_neg (not_or.2 ⟨Bool.false_ne_true, hfits⟩)]

theorem peekLength_of_none (hbase : base ≤ buf.length) (fail : Bool)
    (h : unpackBytes (buf.drop base) = none) :
    peekLength buf ⟨base, fail⟩ = some (none, ⟨base, fail⟩) := by
  by_cases hshort : buf.length - base < 2
  · unfold peekLength
    rw [lacks_of_lt hbase hshort]
    rfl
  · have hroom : base + 2 ≤ buf.length := by omega
    rw [unpackBytes_drop hroom, ite_eq_left_iff] at h
    have hlong : buf.length < base + 2 + lengthAt buf base := by
      by_contra hle
      cases h hle
    rw [peekLength_drop hroom, if_pos hlong]

/-- Where an array is. -/
theorem peekLength_of_some (hbase : base ≤ buf.length) (fail : Bool)
    (h : unpackBytes (buf.drop base) = some (bytes, rest)) :
    peekLength buf ⟨base, fail⟩ = some (some bytes.length, ⟨base, fail⟩) ∧
      base + 2 + bytes.length ≤ buf.length ∧ (buf.drop (base + 2)).take bytes.length = bytes ∧
        buf.drop (base + 2 + bytes.length) = rest := by
  have hroom : base + 2 ≤ buf.length := by
    have hlen := Unpacked.length_of_unpackBytes h
    rw [List.length_drop, packedBytesLength] at hlen
    omega
  rw [unpackBytes_drop hroom, Option.ite_none_left_eq_some] at h
  obtain ⟨hle, h⟩ := h
  obtain ⟨rfl, rfl⟩ := Prod.mk.inj (Option.some.inj h)
  have hlen : ((buf.drop (base + 2)).take (lengthAt buf base)).length = lengthAt buf base := by
    rw [List.length_take, List.length_drop]
    omega
  rw [hlen, peekLength_drop hroom, if_neg hle]
  exact ⟨rfl, by omega, rfl, rfl⟩

theorem follows_decodeBytes : Follows decodeBytes unpackBytes := by
  refine Tracks.unlessFailed [] (fun _ _ _ h => h.elim) fun buf base hbase _ => ?_
  cases h : unpackBytes (buf.drop base) with
  | none => exact ⟨[], base, hbase, run_bind (peekLength_of_none hbase false h) _⟩
  | some r =>
    obtain ⟨bytes, rest⟩ := r
    obtain ⟨hpeek, hroom, hbytes, hrest⟩ := peekLength_of_some hbase false h
    refine ⟨base + 2 + bytes.length, hroom, (run_bind hpeek _).trans ?_, hrest⟩
    change some ((buf.drop (base + 2)).take bytes.length, _) = _
    rw [hbytes]

theorem follows_decodeString : Follows decodeString unpackString := by
  refine Tracks.unlessFailed [] (fun _ _ _ h => h.elim) fun buf base hbase _ => ?_
  cases h : unpackBytes (buf.drop base) with
  | none =>
    have hread : unpackString (buf.drop base) = none := congrArg (Option.bind · _) h
    rw [hread]
    exact ⟨[], base, hbase, run_bind (peekLength_of_none hbase false h) _⟩
  | some r =>
    obtain ⟨bytes, rest⟩ := r
    obtain ⟨hpeek, hroom, hbytes, hrest⟩ := peekLength_of_some hbase false h
    have hread : unpackString (buf.drop base) = some (cString bytes, rest) := by
      change (unpackBytes (buf.drop base)).bind _ = _
      rw [h]
      rfl
    have hload : load bytes.length buf ⟨base + 2, false⟩ = some (bytes, ⟨base + 2, false⟩) := by
      rw [load_of_le hroom, hbytes]
    rw [hread]
    refine ⟨base + 2 + bytes.length, hroom, (run_bind hpeek _).trans ?_, hrest⟩
    change (load bytes.length >>= fun body => advance bytes.length >>= fun _ =>
      pure (cString body)) buf _ = _
    exact run_bind hload _

end Arrays

/-! ## Addresses -/

/-- `unpackAddress`, keeping whether there is a port. -/
def findAddress : Unpack FoundAddress := fun bs => do
  let (ipAddress, rest) ← unpackBytes bs
  if bs.length < 5 then none
  else
    let (port, rest) := ((unpackU32 rest).map fun r => (some r.1, r.2)).getD (none, rest)
    match rest with
    | [] => none
    | type :: rest => some (⟨ipAddress, port, type⟩, rest)

def findAddresses : ℕ → Unpack (List FoundAddress)
  | 0 => pure []
  | n + 1 => do
    let address ← findAddress
    let addresses ← findAddresses n
    return address :: addresses

theorem unpackAddress_eq : unpackAddress = FoundAddress.address <$> findAddress := by
  funext bs
  change (unpackBytes bs).bind _ = ((unpackBytes bs).bind _).bind _
  rw [Option.bind_assoc]
  refine congrArg (Option.bind _) (funext fun r => ?_)
  obtain ⟨ipAddress, rest⟩ := r
  by_cases hshort : bs.length < 5
  · simp [hshort]
  · cases hport : unpackU32 rest with
    | none => cases rest <;> simp [hshort, hport, FoundAddress.address]
    | some r =>
      obtain ⟨port, rest⟩ := r
      cases rest <;> simp [hshort, hport, FoundAddress.address]

theorem unpackAddresses_eq (n : ℕ) :
    unpackAddresses n = List.map FoundAddress.address <$> findAddresses n := by
  induction n with
  | zero => rfl
  | succ n ih =>
    rw [unpackAddresses, findAddresses, unpackAddress_eq, ih]
    simp

/-- Nothing, or just the port, is left behind the ip. -/
def LeavesAddress (bs : List UInt8) : Prop :=
  ∃ ip rest, unpackBytes bs = some (ip, rest) ∧ 5 ≤ bs.length ∧
    (rest.length = 0 ∨ rest.length = 4)

section Address

variable {buf ip rest : List UInt8} {base : ℕ}

theorem decodePort_of_lt (hbase : base ≤ buf.length) (h : buf.length - base < 4) :
    decodePort buf ⟨base, false⟩ = some (none, ⟨base, false⟩) :=
  run_bind (lacks_of_lt hbase h) _

theorem decodePort_of_le (h : base + 4 ≤ buf.length) : decodePort buf ⟨base, false⟩ =
    some (some (UInt32.ofNat (ofBytes ((buf.drop base).take 4))), ⟨base + 4, false⟩) := by
  refine (run_bind (lacks_of_le h) _).trans ?_
  change (load 4 >>= fun bytes => advance 4 >>= fun _ =>
    pure (some (UInt32.ofNat (ofBytes bytes)))) buf _ = _
  exact run_bind (load_of_le h) _

/-- The type is read wherever the port has left the cursor. -/
def decodeType (ip : List UInt8) (port : Option UInt32) : Decode (Option FoundAddress) := do
  let type ← load 1
  advance 1
  return some ⟨ip, port, UInt8.ofNat (ofBytes type)⟩

theorem decodeAddress_of_none (hbase : base ≤ buf.length)
    (hbytes : unpackBytes (buf.drop base) = none) :
    decodeAddress buf ⟨base, false⟩ = some (none, ⟨base, true⟩) := by
  rw [decodeAddress, unlessFailed_run]
  exact run_bind (peekLength_of_none hbase false hbytes) _

theorem decodeAddress_of_short (hbase : base ≤ buf.length)
    (hbytes : unpackBytes (buf.drop base) = some (ip, rest)) (hshort : buf.length - base < 5) :
    decodeAddress buf ⟨base, false⟩ = some (none, ⟨base, true⟩) := by
  rw [decodeAddress, unlessFailed_run]
  refine (run_bind (peekLength_of_some hbase false hbytes).1 _).trans ?_
  exact run_bind (lacks_of_lt hbase hshort) _

theorem decodeAddress_of_some (hbytes : unpackBytes (buf.drop base) = some (ip, rest))
    (hfive : base + 5 ≤ buf.length) : decodeAddress buf ⟨base, false⟩ =
      (decodePort >>= decodeType ip) buf ⟨base + 2 + ip.length, false⟩ := by
  obtain ⟨hpeek, hroom, hslice, -⟩ := peekLength_of_some (by omega) false hbytes
  rw [decodeAddress, unlessFailed_run]
  refine (run_bind hpeek _).trans <| (run_bind (lacks_of_le hfive) _).trans ?_
  change (decodePort >>= decodeType ((buf.drop (base + 2)).take ip.length)) buf _ = _
  rw [hslice]

def findType (ip : List UInt8) (port : Option UInt32) : Unpack FoundAddress
  | [] => none
  | type :: rest => some (⟨ip, port, type⟩, rest)

theorem findAddress_of_lt (hbytes : unpackBytes buf = some (ip, rest)) (hfive : 5 ≤ buf.length)
    (hport : rest.length < 4) : findAddress buf = findType ip none rest := by
  have hread : unpackU32 rest = none := by
    change (unpackU 4 rest).bind _ = _
    rw [unpackU, if_pos hport]
    rfl
  change (unpackBytes buf).bind _ = _
  rw [hbytes]
  change (if buf.length < 5 then none else _) = _
  rw [if_neg (by omega), hread]
  cases rest <;> rfl

theorem findAddress_of_le (hbytes : unpackBytes buf = some (ip, rest)) (hfive : 5 ≤ buf.length)
    (hport : 4 ≤ rest.length) : findAddress buf =
      findType ip (some (UInt32.ofNat (ofBytes (rest.take 4)))) (rest.drop 4) := by
  have hread : unpackU32 rest =
      some (UInt32.ofNat (ofBytes (rest.take 4)), rest.drop 4) := by
    change (unpackU 4 rest).bind _ = _
    rw [unpackU, if_neg (by omega)]
    rfl
  change (unpackBytes buf).bind _ = _
  rw [hbytes]
  change (if buf.length < 5 then none else _) = _
  rw [if_neg (by omega), hread]
  change (match rest.drop 4 with | [] => _ | type :: rest => _) = _
  cases rest.drop 4 <;> rfl

/-- The type is read from the end if nothing is left. -/
theorem decodeType_of_nil {port : Option UInt32} (h : buf.drop base = []) :
    decodeType ip port buf ⟨base, false⟩ = none := by
  have hend := List.drop_eq_nil_iff.1 h
  exact run_bind_none (load_of_lt (by dsimp only; omega)) _

theorem decodeType_agrees {port : Option UInt32} (h : buf.drop base ≠ []) :
    Agrees buf (decodeType ip port buf ⟨base, false⟩)
      ((some <$> findType ip port) (buf.drop base)) := by
  have hroom : base + 1 ≤ buf.length := by
    have hend := mt List.drop_eq_nil_of_le h
    omega
  have hdrop := List.drop_eq_getElem_cons hroom
  have hread : (some <$> findType ip port) (buf.drop base) =
      some (some ⟨ip, port, buf[base]⟩, buf.drop (base + 1)) := by
    rw [hdrop]
    rfl
  rw [hread]
  refine ⟨base + 1, hroom, (run_bind (load_of_le hroom) _).trans ?_, rfl⟩
  have htype : UInt8.ofNat (ofBytes ((buf.drop base).take 1)) = buf[base] := by
    rw [hdrop, List.take_succ_cons, List.take_zero]
    simp [ofBytes]
  rw [htype]
  rfl

end Address

theorem findAddress_eq_none {bs : List UInt8} (h : unpackBytes bs = none) :
    findAddress bs = none :=
  congrArg (Option.bind · _) h

theorem tracks_decodeAddress :
    Tracks decodeAddress (some <$> findAddress) LeavesAddress where
  stuck buf base hbase := ⟨none, base, hbase, rfl⟩
  leaves buf base hbase := by
    rintro ⟨ip, rest, hbytes, hfive, hlen⟩
    obtain ⟨-, hroom, -, rfl⟩ := peekLength_of_some hbase false hbytes
    rw [List.length_drop] at hfive hlen
    rw [decodeAddress_of_some hbytes (by omega)]
    obtain hnothing | hport := hlen
    · refine (run_bind (decodePort_of_lt hroom (by omega)) _).trans ?_
      exact decodeType_of_nil (List.drop_eq_nil_of_le (by omega))
    · refine (run_bind (decodePort_of_le (by omega)) _).trans ?_
      exact decodeType_of_nil (List.drop_eq_nil_of_le (by omega))
  agrees buf base hbase hstays := by
    cases hbytes : unpackBytes (buf.drop base) with
    | none =>
      have hread : (some <$> findAddress) (buf.drop base) = none :=
        congrArg (Option.bind · _) (findAddress_eq_none hbytes)
      rw [hread]
      exact ⟨none, base, hbase, decodeAddress_of_none hbase hbytes⟩
    | some r =>
      obtain ⟨ip, rest⟩ := r
      obtain ⟨hpeek, hroom, -, hrest⟩ := peekLength_of_some hbase false hbytes
      by_cases hfive : 5 ≤ (buf.drop base).length
      · have hfive' : base + 5 ≤ buf.length := by
          rw [List.length_drop] at hfive
          omega
        rw [decodeAddress_of_some hbytes hfive']
        have hlen : rest.length = buf.length - (base + 2 + ip.length) := by
          rw [← hrest, List.length_drop]
        by_cases hport : rest.length < 4
        · have hread : (some <$> findAddress) (buf.drop base) = (some <$> findType ip none) rest :=
            congrArg (Option.bind · _) (findAddress_of_lt hbytes hfive hport)
          rw [run_bind (decodePort_of_lt hroom (by omega)), hread, ← hrest]
          refine decodeType_agrees fun hnil => hstays ⟨ip, rest, hbytes, hfive, .inl ?_⟩
          rw [← hrest, hnil, List.length_nil]
        · have hread : (some <$> findAddress) (buf.drop base) = (some <$> findType ip
              (some (UInt32.ofNat (ofBytes (rest.take 4))))) (rest.drop 4) :=
            congrArg (Option.bind · _) (findAddress_of_le hbytes hfive (by omega))
          rw [run_bind (decodePort_of_le (by omega)), hread, ← hrest, List.drop_drop]
          refine decodeType_agrees fun hnil => hstays ⟨ip, rest, hbytes, hfive, .inr ?_⟩
          have hend := List.drop_eq_nil_iff.1 hnil
          omega
      · have hread : (some <$> findAddress) (buf.drop base) = none := by
          have hnone : findAddress (buf.drop base) = none := by
            change (unpackBytes (buf.drop base)).bind _ = _
            rw [hbytes]
            exact if_pos (by omega)
          exact congrArg (Option.bind · _) hnone
        rw [List.length_drop] at hfive
        rw [hread]
        exact ⟨none, base, hbase, decodeAddress_of_short hbase hbytes (by omega)⟩

/-- Where the walk leaves the buffer. -/
def LeavesAddresses : ℕ → List UInt8 → Prop
  | 0, _ => False
  | n + 1, bs => LeavesAddress bs ∨
    ¬LeavesAddress bs ∧ ∃ a rest, findAddress bs = some (a, rest) ∧ LeavesAddresses n rest

theorem tracks_decodeAddresses (n : ℕ) :
    Tracks (decodeAddresses n) (findAddresses n) (LeavesAddresses n) := by
  induction n with
  | zero => exact .pure []
  | succ n ih =>
    have hread : findAddresses (n + 1) = (some <$> findAddress) >>= fun address =>
        findAddresses n >>= fun addresses => pure (address.toList ++ addresses) := by
      rw [findAddresses, bind_map_left]
      rfl
    rw [hread]
    have htracks := tracks_decodeAddress.bind fun address => ih.bind fun addresses =>
      (Tracks.pure (address.toList ++ addresses) : Follows (α := UInt8) _ _)
    refine htracks.congr fun bs => or_congr_right <| and_congr_right fun _ => ?_
    constructor
    · rintro ⟨a, rest, hfind, hleaves⟩
      exact ⟨some a, rest, Option.bind_eq_some_iff.2 ⟨_, hfind, rfl⟩, .inl hleaves⟩
    · rintro ⟨a, rest, hfind, hleaves⟩
      obtain ⟨a, ha, -⟩ := Unpacked.of_map_eq_some hfind
      refine ⟨a, rest, ha, hleaves.resolve_right ?_⟩
      rintro ⟨-, -, -, -, hfalse⟩
      exact hfalse

/-! ## Where the walk leaves the buffer -/

theorem unpackBytes_eq_some_iff {bs bytes rest : List UInt8} :
    unpackBytes bs = some (bytes, rest) ↔
      bytes.length < 65536 ∧ bs = bytesPiece bytes ++ rest := by
  constructor
  · intro h
    have hlong := Unpacked.length_of_unpackBytes h
    rw [packedBytesLength] at hlong
    have hroom : 0 + 2 ≤ bs.length := by omega
    rw [← List.drop_zero (l := bs), unpackBytes_drop hroom, Option.ite_none_left_eq_some] at h
    obtain ⟨hle, h⟩ := h
    obtain ⟨rfl, rfl⟩ := Prod.mk.inj (Option.some.inj h)
    have htake : (bs.take 2).length = 2 := by
      rw [List.length_take]
      omega
    have hlt : ofBytes (bs.take 2) < 65536 := by
      have := ofBytes_lt (bs.take 2)
      rwa [htake] at this
    have hat : lengthAt bs 0 = ofBytes (bs.take 2) := by
      rw [lengthAt, List.drop_zero, UInt16.toNat_ofNat', Nat.mod_eq_of_lt hlt]
    have hlen : ((bs.drop (0 + 2)).take (lengthAt bs 0)).length = lengthAt bs 0 := by
      rw [List.length_take, List.length_drop]
      omega
    refine ⟨by omega, ?_⟩
    have hfront : toBytes 2 (UInt16.ofNat (lengthAt bs 0)).toNat = bs.take 2 := by
      have hback := toBytes_ofBytes (bs.take 2)
      rw [htake] at hback
      rw [UInt16.toNat_ofNat', hat, Nat.mod_eq_of_lt hlt, hback]
    rw [bytesPiece, hlen, hfront, Nat.zero_add, List.append_assoc, ← List.drop_drop,
      List.take_append_drop, List.take_append_drop]
  · rintro ⟨hlen, rfl⟩
    exact takes_bytesPiece hlen rest

/-- The buffer ends within an address of the list, behind its ip or behind its port; the address
has the five bytes that are looked for. -/
def EndsWithinAddress (count : ℕ) (bytes : List UInt8) : Prop :=
  ∃ (addresses : List Address) (ip tail : List UInt8), addresses.length < count ∧
    (∀ a ∈ addresses, a.ipAddress.length < 65536) ∧ ip.length < 65536 ∧
    bytes = (addresses.flatMap addressPieces).flatten ++ (bytesPiece ip ++ tail) ∧
    (tail.length = 4 ∨ tail.length = 0 ∧ 3 ≤ ip.length)

theorem leavesAddress_iff {bs : List UInt8} : LeavesAddress bs ↔
    ∃ ip tail, ip.length < 65536 ∧ bs = bytesPiece ip ++ tail ∧
      (tail.length = 4 ∨ tail.length = 0 ∧ 3 ≤ ip.length) := by
  unfold LeavesAddress
  refine exists_congr fun ip => exists_congr fun tail => ?_
  rw [unpackBytes_eq_some_iff, and_assoc]
  refine and_congr_right fun _ => and_congr_right fun hbs => ?_
  have hlen : bs.length = 2 + ip.length + tail.length := by
    rw [hbs, List.length_append, Unpacked.length_bytesPiece, packedBytesLength]
  omega

theorem takes_findAddress {address : Address} (h : address.ipAddress.length < 65536) :
    Takes findAddress (addressPieces address).flatten
      ⟨address.ipAddress, some address.port, address.type⟩ := by
  intro rest
  have htype : toBytes 1 address.type.toNat = [address.type] := by simp [toBytes]
  have hbytes : (addressPieces address).flatten ++ rest = bytesPiece address.ipAddress ++
      (toBytes 4 address.port.toNat ++ address.type :: rest) := by
    simp [addressPieces, htype]
  have hroom : ¬(bytesPiece address.ipAddress ++
      (toBytes 4 address.port.toNat ++ address.type :: rest)).length < 5 := by
    rw [List.length_append, List.length_append, length_toBytes, List.length_cons]
    omega
  have hip := takes_bytesPiece h (toBytes 4 address.port.toNat ++ address.type :: rest)
  have hport := takes_unpackU32 address.port (address.type :: rest)
  rw [hbytes]
  simp only [findAddress, hip, Option.bind_eq_bind, Option.bind_some, if_neg hroom, hport,
    Option.map_some, Option.getD_some]

/-- A whole address, or one whose port is cut off. -/
theorem of_findAddress {bs rest : List UInt8} {a : FoundAddress}
    (h : findAddress bs = some (a, rest)) :
    (a.port.isSome ∧ a.ipAddress.length < 65536 ∧
      bs = (addressPieces a.address).flatten ++ rest) ∨
    (a.port = none ∧ a.ipAddress.length < 65536 ∧ rest.length ≤ 2 ∧ 5 ≤ bs.length ∧
      bs = bytesPiece a.ipAddress ++ a.type :: rest) := by
  obtain ⟨⟨ip, tail⟩, hbytes, hrest⟩ := Option.bind_eq_some_iff.1 h
  obtain ⟨hlen, hbs⟩ := unpackBytes_eq_some_iff.1 hbytes
  have hfive : 5 ≤ bs.length := by
    by_contra hshort
    have hnone := hrest.symm.trans (if_pos (by omega))
    cases hnone
  by_cases hport : tail.length < 4
  · rw [findAddress_of_lt hbytes hfive hport] at h
    cases tail with
    | nil => cases h
    | cons type tail =>
      obtain ⟨rfl, rfl⟩ := Prod.mk.inj (Option.some.inj h)
      rw [List.length_cons] at hport
      exact .inr ⟨rfl, hlen, by omega, hfive, hbs⟩
  · rw [findAddress_of_le hbytes hfive (by omega)] at h
    cases hback : tail.drop 4 with
    | nil =>
      rw [hback] at h
      cases h
    | cons type rest' =>
      rw [hback] at h
      obtain ⟨rfl, rfl⟩ := Prod.mk.inj (Option.some.inj h)
      refine .inl ⟨rfl, hlen, ?_⟩
      have htake : (tail.take 4).length = 4 := by
        rw [List.length_take]
        omega
      have hlt : ofBytes (tail.take 4) < 2 ^ 32 := by
        have := ofBytes_lt (tail.take 4)
        rwa [htake] at this
      have hfront : toBytes 4 (UInt32.ofNat (ofBytes (tail.take 4))).toNat = tail.take 4 := by
        have hback := toBytes_ofBytes (tail.take 4)
        rw [htake] at hback
        rw [UInt32.toNat_ofNat', Nat.mod_eq_of_lt hlt, hback]
      have htype : toBytes 1 type.toNat = [type] := by simp [toBytes]
      have htail : tail = tail.take 4 ++ type :: rest' := by
        rw [← hback, List.take_append_drop]
      rw [hbs]
      simp only [FoundAddress.address, Option.getD_some, addressPieces, hfront, htype,
        List.flatten_cons, List.flatten_nil, List.append_nil, List.append_assoc,
        List.singleton_append, ← htail]

theorem leavesAddresses_iff {n : ℕ} {bs : List UInt8} :
    LeavesAddresses n bs ↔ EndsWithinAddress n bs := by
  induction n generalizing bs with
  | zero =>
    refine ⟨False.elim, ?_⟩
    rintro ⟨addresses, ip, tail, hcount, -⟩
    exact Nat.not_lt_zero _ hcount
  | succ n ih =>
    rw [LeavesAddresses]
    constructor
    · rintro (hleaves | ⟨-, a, rest, hfind, hleaves⟩)
      · obtain ⟨ip, tail, hip, hbs, htail⟩ := leavesAddress_iff.1 hleaves
        exact ⟨[], ip, tail, Nat.succ_pos n, by simp, hip, hbs, htail⟩
      · obtain ⟨addresses, ip, tail, hcount, hips, hip, hrest, htail⟩ := ih.1 hleaves
        obtain ⟨-, ha, hbs⟩ | ⟨-, -, hshort, -⟩ := of_findAddress hfind
        · refine ⟨a.address :: addresses, ip, tail, Nat.succ_lt_succ hcount,
            List.forall_mem_cons.2 ⟨ha, hips⟩, hip, ?_, htail⟩
          rw [hbs, hrest, List.flatMap_cons, List.flatten_append, List.append_assoc]
        · rw [hrest, List.length_append, List.length_append, Unpacked.length_bytesPiece,
            packedBytesLength] at hshort
          omega
    · rintro ⟨addresses, ip, tail, hcount, hips, hip, hbs, htail⟩
      by_cases hleaves : LeavesAddress bs
      · exact .inl hleaves
      · cases addresses with
        | nil => exact .inl (leavesAddress_iff.2 ⟨ip, tail, hip, hbs, htail⟩)
        | cons a addresses =>
          obtain ⟨ha, hips⟩ := List.forall_mem_cons.1 hips
          rw [List.flatMap_cons, List.flatten_append, List.append_assoc] at hbs
          refine .inr ⟨hleaves, _, _, hbs ▸ takes_findAddress ha _, ih.2 ?_⟩
          exact ⟨addresses, ip, tail, Nat.lt_of_succ_lt_succ hcount, hips, hip, rfl, htail⟩

theorem tracks_addresses {α : Type} (n : ℕ) (f : List Address → α) :
    Tracks (decodeAddresses n >>= fun found => pure (f (found.map FoundAddress.address)))
      (unpackAddresses n >>= fun addresses => pure (f addresses)) (EndsWithinAddress n) := by
  rw [unpackAddresses_eq, bind_map_left]
  refine ((tracks_decodeAddresses n).bind fun found => .pure _).congr fun bs => ?_
  rw [← leavesAddresses_iff]
  simp [After]

/-! ## The fields of a type -/

theorem follows_decodeConfiguration : Follows decodeConfiguration unpackConfiguration := by
  refine follows_decodeU16.bind fun count => ?_
  iterate 10 refine follows_decodeU32.bind fun _ => ?_
  refine Follows.bind ?_ fun rejectLimit => ?_
  · split
    · exact follows_decodeU32
    · exact .pure 0
  · exact (follows_decodeU32.mapM_replicate _).bind fun extras => .pure _

/-- The number of addresses, behind the fields in front of it. -/
def unpackAddressCount : PacketType → Unpack UInt16
  | declareServer | sendServerDeclaration => do
    let _version ← unpackU16
    let _region ← unpackString
    let _userId ← unpackU64
    let _deviceId ← unpackU64
    let _instanceId ← unpackString
    let _ansDns ← unpackString
    let _pxdDns ← unpackString
    unpackU16
  | startConnectionAttempt => do
    let _version ← unpackU16
    let _region ← unpackString
    let _userId ← unpackU64
    let _deviceId ← unpackU64
    let _instanceId ← unpackString
    let _pxdDns ← unpackString
    let _requestId ← unpackU64
    unpackU16
  | _ => fun _ => none

/-- The fields have addresses, and the buffer ends within one. -/
def FieldsEndWithinAddress (type : PacketType) : List UInt8 → Prop :=
  After (unpackAddressCount type) fun count => EndsWithinAddress count.toNat

theorem follows_decodeFields {u : Unpacked} (h : u.type ∉ [declareServer, sendServerDeclaration,
    startConnectionAttempt]) : Follows (decodeFields u) (unpackFields u) := by
  obtain ⟨type, _, _, _, _, _, _, _, _, _, _, _, _, _, _, _, _, _, _, _, _⟩ := u
  unfold decodeFields unpackFields
  cases type
  case sendResponse => exact follows_decodeU64.bind fun _ => .pure _
  case sendPxdLogin =>
    exact follows_decodeU16.bind fun _ => follows_decodeU64.bind fun _ =>
      follows_decodeBytes.bind fun _ => follows_decodeBytes.bind fun _ =>
      follows_decodeString.bind fun _ => .pure _
  case sendCcdLogin =>
    exact follows_decodeU16.bind fun _ => follows_decodeU64.bind fun _ =>
      follows_decodeBytes.bind fun _ => follows_decodeBytes.bind fun _ =>
      (Tracks.pure _ : Follows _ _).bind fun _ => .pure _
  case sendPxdChallenge | sendCcdChallenge =>
    exact follows_decodeU16.bind fun _ => follows_decodeU64.bind fun _ =>
      follows_decodeBytes.bind fun _ => follows_decodeString.bind fun _ =>
      follows_decodeU64.bind fun _ => follows_decodeBytes.bind fun _ =>
      follows_decodeU32.bind fun _ => .pure _
  case declareServer | sendServerDeclaration | startConnectionAttempt => simp at h
  case queryServerDeclaration =>
    exact follows_decodeU16.bind fun _ => follows_decodeString.bind fun _ =>
      follows_decodeU64.bind fun _ => follows_decodeU64.bind fun _ =>
      follows_decodeString.bind fun _ => .pure _
  case startProxyConnection =>
    exact follows_decodeU16.bind fun _ => follows_decodeU64.bind fun _ =>
      follows_decodeU64.bind fun _ => follows_decodeString.bind fun _ =>
      follows_decodeU64.bind fun _ => .pure _
  case sendPxdResponse =>
    exact follows_decodeU16.bind fun _ => follows_decodeU64.bind fun _ => .pure _
  case sendCcdResponse =>
    refine follows_decodeU16.bind fun _ => follows_decodeU64.bind fun _ =>
      follows_decodeU8.bind fun present => ?_
    dsimp only
    split
    · exact .pure _
    · exact follows_decodeBytes.bind fun _ => follows_decodeU32.bind fun _ => .pure _
  case setPxdConfiguration =>
    exact follows_decodeU16.bind fun _ => follows_decodeConfiguration.bind fun _ => .pure _
  all_goals exact .pure _

theorem not_fieldsEndWithinAddress {type : PacketType} (h : type ∉ [declareServer,
    sendServerDeclaration, startConnectionAttempt]) (bs : List UInt8) :
    ¬FieldsEndWithinAddress type bs := by
  have hnone : unpackAddressCount type = fun _ => none := by
    cases type <;> first | rfl | simp at h
  rintro ⟨count, rest, hcount, -⟩
  rw [hnone] at hcount
  cases hcount

theorem tracks_declaration {u : Unpacked}
    (h : u.type = declareServer ∨ u.type = sendServerDeclaration) :
    Tracks (decodeFields u) (unpackFields u) (FieldsEndWithinAddress u.type) := by
  have htracks (version region userId deviceId instanceId ansDns pxdDns) (count : UInt16) :=
    tracks_addresses count.toNat fun addresses => { u with
      version := version, region := region, userId := userId, deviceId := deviceId
      instanceId := instanceId, ansDns := ansDns, pxdDns := pxdDns, addresses := addresses }
  have hfields := follows_decodeU16.bind_tracks fun version =>
    follows_decodeString.bind_tracks fun region => follows_decodeU64.bind_tracks fun userId =>
    follows_decodeU64.bind_tracks fun deviceId => follows_decodeString.bind_tracks fun instanceId =>
    follows_decodeString.bind_tracks fun ansDns => follows_decodeString.bind_tracks fun pxdDns =>
    follows_decodeU16.bind_tracks fun count =>
    htracks version region userId deviceId instanceId ansDns pxdDns count
  obtain htype | htype := h
  all_goals
    simp only [htype] at hfields
    simpa only [decodeFields, unpackFields, FieldsEndWithinAddress, unpackAddressCount, after_bind,
      htype] using hfields

theorem tracks_connectionAttempt {u : Unpacked} (h : u.type = startConnectionAttempt) :
    Tracks (decodeFields u) (unpackFields u) (FieldsEndWithinAddress u.type) := by
  have htracks (version region userId deviceId instanceId pxdDns requestId) (count : UInt16) :=
    tracks_addresses count.toNat fun addresses => { u with
      version := version, region := region, userId := userId, deviceId := deviceId
      instanceId := instanceId, pxdDns := pxdDns, requestId := requestId
      addresses := addresses }
  have hfields := follows_decodeU16.bind_tracks fun version =>
    follows_decodeString.bind_tracks fun region => follows_decodeU64.bind_tracks fun userId =>
    follows_decodeU64.bind_tracks fun deviceId => follows_decodeString.bind_tracks fun instanceId =>
    follows_decodeString.bind_tracks fun pxdDns => follows_decodeU64.bind_tracks fun requestId =>
    follows_decodeU16.bind_tracks fun count =>
    htracks version region userId deviceId instanceId pxdDns requestId count
  simp only [h] at hfields
  simpa only [decodeFields, unpackFields, FieldsEndWithinAddress, unpackAddressCount, after_bind,
    h] using hfields

/-- The fields of a type are decoded as `unpackFields` decodes them, but for buffers that end
within an address. -/
theorem tracks_decodeFields (u : Unpacked) :
    Tracks (decodeFields u) (unpackFields u) (FieldsEndWithinAddress u.type) := by
  by_cases h : u.type ∈ [declareServer, sendServerDeclaration, startConnectionAttempt]
  · obtain hdeclare | hsend | hstart := by simpa using h
    · exact tracks_declaration (.inl hdeclare)
    · exact tracks_declaration (.inr hsend)
    · exact tracks_connectionAttempt hstart
  · exact (follows_decodeFields h).congr fun bs =>
      iff_of_false (not_fieldsEndWithinAddress h bs) not_false

end PersonalCloud.Pxd
