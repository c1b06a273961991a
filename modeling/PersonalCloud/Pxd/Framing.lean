import PersonalCloud.Lib.Frames
import PersonalCloud.Pxd.Login

/-!
# Reading packets in pieces

`pxd_read_packet` reads the two lengths of a packet, checks them against each other and against
the limits, and then reads the rest. What it needs arrives in pieces of any size; a read that
finds nothing there is tried again.

The limit for a packet, `pxd_max_packet_size`, is a parameter: it is 8192 until a configuration
sets another.

## Main results

* `reads_readPacket` — packets are read off the front of what a connection carries, however it
  arrives.
-/

namespace PersonalCloud.Pxd

open PersonalCloud.Lib

/-! ## Frames -/

/-- The length inverted, the length, and the type. -/
def frameHead (code : UInt16) (length : Nat) : List UInt8 :=
  toBytes 2 (~~~UInt16.ofNat length).toNat ++ toBytes 2 length ++ toBytes 2 code.toNat

/-- The bytes say where they end, and have room for a signature if the type needs one. -/
structure Framed (code : UInt16) (bytes : List UInt8) : Prop where
  headerSize_le : headerSize ≤ bytes.length
  length_lt : bytes.length < 65536
  take_eq : bytes.take tagOffset = frameHead code bytes.length
  room : isSigned code = true → headerSize + signatureSize ≤ bytes.length

instance (code : UInt16) (bytes : List UInt8) : Decidable (Framed code bytes) :=
  decidable_of_iff
    (headerSize ≤ bytes.length ∧ bytes.length < 65536 ∧
      bytes.take tagOffset = frameHead code bytes.length ∧
      (isSigned code = true → headerSize + signatureSize ≤ bytes.length))
    ⟨fun ⟨h₁, h₂, h₃, h₄⟩ => ⟨h₁, h₂, h₃, h₄⟩, fun ⟨h₁, h₂, h₃, h₄⟩ => ⟨h₁, h₂, h₃, h₄⟩⟩

/-- The bytes can be read as one packet. -/
def IsFrame (maxPacketSize : Nat) (bytes : List UInt8) : Prop :=
  (∃ code, Framed code bytes) ∧ bytes.length ≤ maxPacketSize

/-! ## Fields -/

theorem ofBytes_toBytes_uint16 (v : UInt16) : UInt16.ofNat (ofBytes (toBytes 2 v.toNat)) = v := by
  rw [ofBytes_toBytes v.toNat_lt, UInt16.ofNat_toNat]

section Unpack

variable {front : List UInt8}

theorem unpackU_append {n : Nat} (h : front.length = n) (back : List UInt8) :
    unpackU n (front ++ back) = some (ofBytes front, back) := by
  have hlen : ¬(front ++ back).length < n := by simp [h]
  rw [unpackU, if_neg hlen, List.take_left' h, List.drop_left' h]

theorem map_eq_some {α β : Type} {m : Unpack α} {a : α} {bs rest : List UInt8}
    (h : m bs = some (a, rest)) (f : α → β) : (f <$> m) bs = some (f a, rest) := by
  change StateT.map f m bs = _
  simp [StateT.map, h]

theorem unpackU16_toBytes (v : UInt16) (back : List UInt8) :
    unpackU16 (toBytes 2 v.toNat ++ back) = some (v, back) := by
  rw [unpackU16, map_eq_some (unpackU_append (length_toBytes _ _) back), ofBytes_toBytes_uint16]

theorem unpackU64_append (h : front.length = 8) (back : List UInt8) :
    unpackU64 (front ++ back) = some (UInt64.ofNat (ofBytes front), back) :=
  map_eq_some (unpackU_append h back) UInt64.ofNat

theorem unpackU64_toBytes (v : UInt64) (back : List UInt8) :
    unpackU64 (toBytes 8 v.toNat ++ back) = some (v, back) := by
  rw [unpackU64_append (length_toBytes _ _), ofBytes_toBytes v.toNat_lt, UInt64.ofNat_toNat]

end Unpack

/-! ## The reader -/

/-- Read exactly so many bytes. Without more of them the wait ends with the time for a packet
that is read in part. -/
def ioLoop : Socket → (expected : Nat) → Option (List UInt8 × Socket)
  | [], _ => none
  | .again :: s, expected => ioLoop s expected
  | .failed :: _, _ => none
  | .bytes data :: s, expected =>
    let count := min data.length expected
    if count = 0 then none
    else if count < expected then do
      let (rest, s) ← ioLoop s (expected - count)
      return (data ++ rest, s)
    else if count < data.length then some (data.take count, .bytes (data.drop count) :: s)
    else some (data, s)

/-- The two lengths are put back in front of the rest. -/
def readPacket (maxPacketSize : Nat) (s : Socket) : Option (List UInt8 × Socket) := do
  let (check, s) ← ioLoop s 2
  let checkLength := ~~~UInt16.ofNat (ofBytes check)
  let (length, s) ← ioLoop s 2
  let packetLength := UInt16.ofNat (ofBytes length)
  if packetLength.toNat < headerSize ∨ packetLength.toNat > maxPacketSize then none
  else if checkLength ≠ packetLength then none
  else
    let (rest, s) ← ioLoop s (checkLength.toNat - 4)
    return (toBytes 2 (~~~checkLength).toNat ++ toBytes 2 checkLength.toNat ++ rest, s)

/-! ## What a connection carries -/

/-- The connection delivers the bytes, in pieces of any size. -/
inductive Carries : Socket → List UInt8 → Prop where
  | nil : Carries [] []
  | again {s : Socket} {bs : List UInt8} : Carries s bs → Carries (.again :: s) bs
  | bytes {s : Socket} {data bs : List UInt8} :
      data ≠ [] → Carries s bs → Carries (.bytes data :: s) (data ++ bs)

section Carries

variable {s : Socket} {bs front back : List UInt8} {n : Nat}

theorem ioLoop_of_carries (h : Carries s bs) (hpos : 0 < n) (hle : n ≤ bs.length) :
    ∃ s', ioLoop s n = some (bs.take n, s') ∧ Carries s' (bs.drop n) := by
  induction h generalizing n with
  | nil =>
    rw [List.length_nil] at hle
    omega
  | again _ ih => exact ih hpos hle
  | @bytes s data bs hdata hs ih =>
    have hlen : 0 < data.length := List.length_pos_iff.2 hdata
    rw [List.length_append] at hle
    by_cases hshort : data.length < n
    · obtain ⟨s', hread, hs'⟩ := ih (n := n - data.length) (by omega) (by omega)
      have hmin : min data.length n = data.length := by omega
      have hall : data.take n = data := List.take_of_length_le hshort.le
      refine ⟨s', ?_, ?_⟩
      · rw [ioLoop, hmin, if_neg (by omega), if_pos hshort, hread, List.take_append, hall]
        rfl
      · rw [List.drop_append, List.drop_eq_nil_of_le (by omega)]
        exact hs'
    · have hmin : min data.length n = n := by omega
      by_cases hrest : n < data.length
      · refine ⟨.bytes (data.drop n) :: s, ?_, ?_⟩
        · rw [ioLoop, hmin, if_neg (by omega), if_neg (by omega), if_pos hrest,
            List.take_append_of_le_length (by omega)]
        · rw [List.drop_append_of_le_length (by omega)]
          refine .bytes ?_ hs
          rw [← List.length_pos_iff, List.length_drop]
          omega
      · obtain rfl : n = data.length := by omega
        refine ⟨s, ?_, ?_⟩
        · rw [ioLoop, hmin, if_neg (by omega), if_neg (by omega), if_neg (by omega),
            List.take_left]
        · rwa [List.drop_left]

theorem ioLoop_eq_none (h : Carries s bs) (hlt : bs.length < n) : ioLoop s n = none := by
  induction h generalizing n with
  | nil => rfl
  | again _ ih => exact ih hlt
  | @bytes s data bs hdata hs ih =>
    have hlen : 0 < data.length := List.length_pos_iff.2 hdata
    rw [List.length_append] at hlt
    have hmin : min data.length n = data.length := by omega
    rw [ioLoop, hmin, if_neg (by omega), if_pos (by omega), ih (by omega)]
    rfl

theorem ioLoop_append (h : Carries s (front ++ back)) (hpos : front ≠ []) :
    ∃ s', ioLoop s front.length = some (front, s') ∧ Carries s' back := by
  obtain ⟨s', hread, hs'⟩ := ioLoop_of_carries h (List.length_pos_iff.2 hpos) (by simp)
  rw [List.take_left] at hread
  rw [List.drop_left] at hs'
  exact ⟨s', hread, hs'⟩

end Carries

/-! ## Reading a packet -/

section Framed

variable {maxPacketSize : Nat} {s : Socket} {code : UInt16} {bytes : List UInt8}

/-- A packet in the parts that it is read in. -/
theorem Framed.exists_eq_append (h : Framed code bytes) :
    ∃ (length : UInt16) (rest : List UInt8),
      bytes = toBytes 2 (~~~length).toNat ++ (toBytes 2 length.toNat ++ rest) ∧
      headerSize ≤ length.toNat ∧ length.toNat = bytes.length ∧
      length.toNat = rest.length + 4 := by
  have hmin : 30 ≤ bytes.length := h.headerSize_le
  have hlen : (UInt16.ofNat bytes.length).toNat = bytes.length := by
    rw [UInt16.toNat_ofNat', Nat.mod_eq_of_lt h.length_lt]
  refine ⟨UInt16.ofNat bytes.length, toBytes 2 code.toNat ++ bytes.drop tagOffset, ?_, ?_, ?_, ?_⟩
  · conv_lhs => rw [← List.take_append_drop tagOffset bytes, h.take_eq]
    simp only [frameHead, hlen, List.append_assoc]
  · rwa [hlen]
  · exact hlen
  · simp only [hlen, tagOffset, List.length_append, length_toBytes, List.length_drop]
    omega

theorem exists_eq_append_of_prefix {front back tail : List UInt8} (h : tail <+: front ++ back)
    (hle : front.length ≤ tail.length) : ∃ rest, tail = front ++ rest ∧ rest <+: back := by
  obtain ⟨rest, rfl⟩ := List.prefix_of_prefix_length_le (List.prefix_append front back) h hle
  exact ⟨rest, rfl, (List.prefix_append_right_inj front).1 h⟩

/-- Once the lengths have been read and checked, only the rest is missing. -/
theorem readPacket_of_carries {length : UInt16} {bs : List UInt8}
    (hmin : headerSize ≤ length.toNat) (hmax : length.toNat ≤ maxPacketSize)
    (hs : Carries s (toBytes 2 (~~~length).toNat ++ (toBytes 2 length.toNat ++ bs))) :
    ∃ s', Carries s' bs ∧
      readPacket maxPacketSize s = (ioLoop s' (length.toNat - 4)).map fun (rest, s) =>
        (toBytes 2 (~~~length).toNat ++ toBytes 2 length.toNat ++ rest, s) := by
  obtain ⟨s₁, h₁, hs₁⟩ := ioLoop_append hs (by simp [toBytes])
  obtain ⟨s₂, h₂, hs₂⟩ := ioLoop_append hs₁ (by simp [toBytes])
  rw [length_toBytes] at h₁ h₂
  refine ⟨s₂, hs₂, ?_⟩
  have hlimits : ¬(length.toNat < headerSize ∨ length.toNat > maxPacketSize) := by omega
  simp only [readPacket, h₁, h₂, ofBytes_toBytes_uint16, UInt16.not_not, Option.bind_eq_bind,
    Option.bind_some, if_neg hlimits, ne_eq, not_true_eq_false, if_false]
  cases ioLoop s₂ (length.toNat - 4) <;> rfl

theorem reads_readPacket :
    Reads Carries (IsFrame maxPacketSize) (readPacket maxPacketSize) where
  whole := by
    rintro s bytes back ⟨⟨code, h⟩, hmax⟩ hs
    obtain ⟨length, rest, rfl, hmin, hexact, hlen⟩ := h.exists_eq_append
    rw [← hexact] at hmax
    rw [List.append_assoc, List.append_assoc] at hs
    obtain ⟨s', hs', hread⟩ := readPacket_of_carries hmin hmax hs
    have hne : rest ≠ [] := by
      have : 30 ≤ length.toNat := hmin
      rw [← List.length_pos_iff]
      omega
    obtain ⟨s'', hrest, hs''⟩ := ioLoop_append hs' hne
    refine ⟨s'', ?_, hs''⟩
    rw [hread, show length.toNat - 4 = rest.length by omega, hrest, Option.map_some]
    simp only [List.append_assoc]
  incomplete := by
    rintro s bytes tail ⟨⟨code, h⟩, hmax⟩ hprefix hlt hs
    obtain ⟨length, rest, rfl, hmin, hexact, hlen⟩ := h.exists_eq_append
    rw [← hexact] at hmax
    by_cases hcheck : tail.length < 2
    · rw [readPacket, ioLoop_eq_none hs hcheck]
      rfl
    obtain ⟨tail₁, rfl, hprefix₁⟩ :=
      exists_eq_append_of_prefix hprefix ((length_toBytes _ _).trans_le (not_lt.1 hcheck))
    by_cases hlength : tail₁.length < 2
    · obtain ⟨s', hread, hs'⟩ := ioLoop_append hs (by simp [toBytes])
      rw [length_toBytes] at hread
      simp [readPacket, hread, ioLoop_eq_none hs' hlength]
    obtain ⟨tail₂, rfl, -⟩ :=
      exists_eq_append_of_prefix hprefix₁ ((length_toBytes _ _).trans_le (not_lt.1 hlength))
    obtain ⟨s', hs', hread⟩ := readPacket_of_carries hmin hmax hs
    have hshort : tail₂.length < length.toNat - 4 := by
      simp only [List.length_append] at hlt
      omega
    rw [hread, ioLoop_eq_none hs' hshort, Option.map_none]
  ended hs := by
    rw [readPacket, ioLoop_eq_none hs (by decide)]
    rfl

end Framed

end PersonalCloud.Pxd
