import Mathlib.Data.List.TakeWhile
import PersonalCloud.Pxd.Packing

/-!
# What is packed is unpacked

`unpackFields` takes the pieces of a type off the front of a packet one by one, and finds what
was written of the record. That is the record itself unless strings were cut or the version is
one that the type does not write.

## Main results

* `takes_fields` — `unpackFields` takes what was written for a type off the front of a packet.
* `roundTrips_iff_sound` — a packet is decoded to the fields it was packed from exactly as long as its
  length does not wrap to one that lets a cut string or a missing address pass, and the version
  is the one that is written.
-/

namespace PersonalCloud.Pxd

open PersonalCloud.Lib PacketType

/-! ## Reading what was written -/

section Takes

theorem takes_unpackU {n v : Nat} (h : v < 256 ^ n) : Takes (unpackU n) (toBytes n v) v := by
  intro rest
  rw [unpackU_append (length_toBytes n v), ofBytes_toBytes h]

theorem takes_unpackU8 (v : UInt8) : Takes unpackU8 (toBytes 1 v.toNat) v := by
  simpa [unpackU8] using (takes_unpackU (n := 1) v.toNat_lt).map UInt8.ofNat

theorem takes_unpackU16 (v : UInt16) : Takes unpackU16 (toBytes 2 v.toNat) v := by
  simpa [unpackU16] using (takes_unpackU (n := 2) v.toNat_lt).map UInt16.ofNat

theorem takes_unpackU32 (v : UInt32) : Takes unpackU32 (toBytes 4 v.toNat) v := by
  simpa [unpackU32] using (takes_unpackU (n := 4) v.toNat_lt).map UInt32.ofNat

theorem takes_unpackU64 (v : UInt64) : Takes unpackU64 (toBytes 8 v.toNat) v := by
  simpa [unpackU64] using (takes_unpackU (n := 8) v.toNat_lt).map UInt64.ofNat

theorem takes_behind_length {length : UInt16} {bytes : List UInt8}
    (h : bytes.length = length.toNat) : Takes unpackBytes (toBytes 2 length.toNat ++ bytes) bytes := by
  refine (takes_unpackU16 length).bind fun rest => ?_
  have hroom : ¬(bytes ++ rest).length < length.toNat := by
    rw [List.length_append]
    omega
  rw [if_neg hroom, List.take_left' h, List.drop_left' h]

theorem takes_bytesPiece {bytes : List UInt8} (h : bytes.length < 65536) :
    Takes unpackBytes (bytesPiece bytes) bytes :=
  takes_behind_length (by simp [Nat.mod_eq_of_lt h])

theorem length_cut (string : List UInt8) : (cut string).length = string.length % 65536 := by
  have := Nat.mod_le string.length 65536
  simp [cut, this]

theorem cString_of_not_mem {bs : List UInt8} (h : 0 ∉ bs) : cString bs = bs := by
  refine List.takeWhile_eq_self_iff.2 fun b hb => ?_
  have hne : b ≠ 0 := fun h0 => h (h0 ▸ hb)
  simpa using hne

theorem takes_stringPiece {string : List UInt8} (h : 0 ∉ string) :
    Takes unpackString (stringPiece string) (cut string) := by
  have hcut : cString (cut string) = cut string :=
    cString_of_not_mem fun h0 => h (List.mem_of_mem_take h0)
  have hlen : (cut string).length = (UInt16.ofNat string.length).toNat := by simp [length_cut]
  have htakes := (takes_behind_length hlen).map cString
  rwa [hcut] at htakes

theorem takes_addressPieces {address : Address} (h : address.ipAddress.length < 65536) :
    Takes unpackAddress (addressPieces address).flatten address := by
  intro rest
  have htype : toBytes 1 address.type.toNat = [address.type] := by simp [toBytes]
  have hbytes : (addressPieces address).flatten ++ rest = bytesPiece address.ipAddress ++
      (toBytes 4 address.port.toNat ++ address.type :: rest) := by
    simp [addressPieces, htype]
  have hroom : ¬(bytesPiece address.ipAddress ++
      (toBytes 4 address.port.toNat ++ address.type :: rest)).length < 5 := by
    rw [List.length_append, List.length_append, length_toBytes, List.length_cons]
    omega
  have hip := takes_bytesPiece h (toBytes 4 address.port.toNat ++ address.type :: rest)
  have hport := takes_unpackU32 address.port (address.type :: rest)
  rw [hbytes]
  simp only [unpackAddress, hip, Option.bind_eq_bind, Option.bind_some, if_neg hroom, hport,
    Option.getD_some]

theorem takes_unpackAddresses {addresses : List Address}
    (h : ∀ a ∈ addresses, a.ipAddress.length < 65536) :
    Takes (unpackAddresses addresses.length) (addresses.flatMap addressPieces).flatten
      addresses := by
  induction addresses with
  | nil => exact .pure _
  | cons address addresses ih =>
    rw [List.flatMap_cons, List.flatten_append]
    exact (takes_addressPieces (h _ (.head _))).bind
      ((ih fun a ha => h a (.tail _ ha)).bind_pure rfl)

end Takes

/-! ## The fields of a type -/

inductive Field where
  | version (value : UInt16)
  | number (value : UInt64)
  | port (value : UInt32)
  | bytes (value : List UInt8)
  /-- An address with its port, if there is one. -/
  | address (value : Option (List UInt8 × UInt32))
  | addresses (value : List Address)
  | configuration (value : Configuration)
  deriving DecidableEq

namespace Unpacked

/-- The values that belong to the type. -/
def fields (u : Unpacked) : List Field :=
  match u.type with
  | sendResponse => [.number u.response]
  | sendPxdLogin =>
    [.version u.version, .number u.connectionId, .bytes u.challenge, .bytes u.blob,
      .bytes u.pxdDns]
  | sendCcdLogin =>
    [.version u.version, .number u.connectionId, .bytes u.challenge, .bytes u.blob]
  | sendPxdChallenge | sendCcdChallenge =>
    [.version u.version, .number u.connectionId, .bytes u.challenge, .bytes u.pxdDns,
      .number u.connectionTime, .bytes (u.address.getD []), .port u.port]
  | declareServer | sendServerDeclaration =>
    [.version u.version, .bytes u.region, .number u.userId, .number u.deviceId,
      .bytes u.instanceId, .bytes u.ansDns, .bytes u.pxdDns, .addresses u.addresses]
  | queryServerDeclaration =>
    [.version u.version, .bytes u.region, .number u.userId, .number u.deviceId,
      .bytes u.instanceId]
  | startConnectionAttempt =>
    [.version u.version, .bytes u.region, .number u.userId, .number u.deviceId,
      .bytes u.instanceId, .bytes u.pxdDns, .number u.requestId, .addresses u.addresses]
  | startProxyConnection =>
    [.version u.version, .number u.userId, .number u.deviceId, .bytes u.instanceId,
      .number u.requestId]
  | sendPxdResponse => [.version u.version, .number u.response]
  | sendCcdResponse =>
    [.version u.version, .number u.response,
      .address (u.address.map fun address => (address, u.port))]
  | setPxdConfiguration => [.version u.version, .configuration u.configuration]
  | _ => []

/-- The strings among them. -/
def strings (u : Unpacked) : List (List UInt8) :=
  match u.type with
  | sendPxdLogin | sendPxdChallenge | sendCcdChallenge => [u.pxdDns]
  | declareServer | sendServerDeclaration => [u.region, u.instanceId, u.ansDns, u.pxdDns]
  | queryServerDeclaration => [u.region, u.instanceId]
  | startConnectionAttempt => [u.region, u.instanceId, u.pxdDns]
  | startProxyConnection => [u.instanceId]
  | _ => []

/-- Strings end with a null byte, which is not part of them. -/
def CStrings (u : Unpacked) : Prop :=
  ∀ string ∈ u.strings, 0 ∉ string

instance (u : Unpacked) : Decidable u.CStrings :=
  inferInstanceAs (Decidable (∀ string ∈ u.strings, 0 ∉ string))

/-- What a packet says of the record. -/
def written (u : Unpacked) : Unpacked :=
  { u with
    version := u.writtenVersion
    region := cut u.region
    instanceId := cut u.instanceId
    ansDns := cut u.ansDns
    pxdDns := cut u.pxdDns }

theorem takes_extras (extra : UInt32) :
    Takes ((List.replicate 1 unpackU32).mapM id) (toBytes 4 extra.toNat) [extra] := by
  rw [List.replicate_one, List.mapM_cons, List.mapM_nil]
  exact (takes_unpackU32 extra).bind_pure rfl

theorem takes_unpackConfiguration (c : Configuration) :
    Takes unpackConfiguration
      (toBytes 2 (UInt16.ofNat (pxdConfigParams + if c.extra ≠ 0 then 1 else 0)).toNat ::
        ([c.proxyRetries, c.proxyWait, c.idleLimit, c.syncIoTimeout, c.minDelay, c.maxDelay,
          c.threadRetries, c.maxPacketSize, c.maxEncrypt, c.partialTimeout, c.rejectLimit] ++
          if c.extra ≠ 0 then [c.extra] else []).map fun value => toBytes 4 value.toNat).flatten
      c := by
  obtain ⟨_, _, _, _, _, _, _, _, _, _, _, extra⟩ := c
  by_cases hextra : extra = 0
  · subst hextra
    refine .cons (takes_unpackU16 _) ?_
    iterate 11 refine .cons (takes_unpackU32 _) ?_
    exact .pure _
  · simp only [ne_eq, hextra, not_false_eq_true, if_true]
    refine .cons (takes_unpackU16 _) ?_
    iterate 11 refine .cons (takes_unpackU32 _) ?_
    exact .cons (takes_extras extra) (.pure _)

theorem length_le_flatten_addressPieces (addresses : List Address) :
    addresses.length ≤ (addresses.flatMap addressPieces).flatten.length := by
  induction addresses with
  | nil => exact Nat.le_refl _
  | cons address addresses ih =>
    have hone : 1 ≤ (addressPieces address).flatten.length := by
      simp [addressPieces]
    rw [List.flatMap_cons, List.flatten_append, List.length_append, List.length_cons]
    omega

/-- What was written for a type is taken off the front of a packet. -/
theorem takes_fields {u : Unpacked} (hpack : u.fieldsLength.isSome) (hstrings : u.CStrings)
    (hlt : u.pieces.flatten.length < 65536) (h : Header) :
    ∃ v, Takes (unpackFields (.ofHeader u.type h)) u.pieces.flatten v ∧ v.type = u.type ∧
      v.fields = u.written.fields := by
  have hbytes : ∀ bytes, bytesPiece bytes ∈ u.pieces → bytes.length < 65536 := by
    intro bytes hmem
    have hle := (List.sublist_flatten_of_mem hmem).length_le
    rw [bytesPiece, List.length_append] at hle
    omega
  have haddresses : u.addresses.flatMap addressPieces <:+ u.pieces →
      Takes (unpackAddresses (UInt16.ofNat u.addresses.length).toNat)
        (u.addresses.flatMap addressPieces).flatten u.addresses := by
    rintro ⟨fixed, hpieces⟩
    have hcount : (UInt16.ofNat u.addresses.length).toNat = u.addresses.length := by
      have hle := length_le_flatten_addressPieces u.addresses
      rw [← hpieces, List.flatten_append, List.length_append] at hlt
      have hsmall : u.addresses.length < 65536 := by omega
      simp [Nat.mod_eq_of_lt hsmall]
    rw [hcount]
    exact takes_unpackAddresses fun a ha =>
      hbytes _ (hpieces ▸ List.mem_append_right _ (List.mem_flatMap.2 ⟨a, ha, .head _⟩))
  obtain ⟨type, _, _, _, _, _, _, _, _, _, _, _, _, address, _, _, _, _, _, addresses, _⟩ := u
  cases type
  case sendResponse =>
    exact ⟨_,
      .cons (takes_unpackU64 _) <| .pure _,
      rfl, rfl⟩
  case rejectPxdCredentials | rejectCcdCredentials =>
    exact ⟨_,
      .pure _,
      rfl, rfl⟩
  case sendPxdLogin =>
    exact ⟨_,
      .cons (takes_unpackU16 _) <| .cons (takes_unpackU64 _) <|
      .cons (takes_bytesPiece (hbytes _ (.tail _ <| .tail _ <| .head _))) <|
      .cons (takes_bytesPiece (hbytes _ (.tail _ <| .tail _ <| .tail _ <| .head _))) <|
      .cons (takes_stringPiece (hstrings _ (.head _))) <| .pure _,
      rfl, rfl⟩
  case sendCcdLogin =>
    exact ⟨_,
      .cons (takes_unpackU16 _) <| .cons (takes_unpackU64 _) <|
      .cons (takes_bytesPiece (hbytes _ (.tail _ <| .tail _ <| .head _))) <|
      .cons (takes_bytesPiece (hbytes _ (.tail _ <| .tail _ <| .tail _ <| .head _))) <| .pure _,
      rfl, rfl⟩
  case sendPxdChallenge | sendCcdChallenge =>
    exact ⟨_,
      .cons (takes_unpackU16 _) <| .cons (takes_unpackU64 _) <|
      .cons (takes_bytesPiece (hbytes _ (.tail _ <| .tail _ <| .head _))) <|
      .cons (takes_stringPiece (hstrings _ (.head _))) <| .cons (takes_unpackU64 _) <|
      .cons (takes_bytesPiece (hbytes _
        (.tail _ <| .tail _ <| .tail _ <| .tail _ <| .tail _ <| .head _))) <|
      .cons (takes_unpackU32 _) <| .pure _,
      rfl, rfl⟩
  case declareServer =>
    have haddresses := haddresses (List.suffix_append ..)
    exact ⟨_,
      .cons (takes_unpackU16 _) <| .cons (takes_stringPiece (hstrings _ (.head _))) <|
      .cons (takes_unpackU64 _) <| .cons (takes_unpackU64 _) <|
      .cons (takes_stringPiece (hstrings _ (.tail _ <| .head _))) <|
      .cons (takes_stringPiece (hstrings _ (.tail _ <| .tail _ <| .head _))) <|
      .cons (takes_stringPiece (hstrings _ (.tail _ <| .tail _ <| .tail _ <| .head _))) <|
      .cons (takes_unpackU16 _) <| haddresses.bind_pure rfl,
      rfl, rfl⟩
  case queryServerDeclaration =>
    exact ⟨_,
      .cons (takes_unpackU16 _) <| .cons (takes_stringPiece (hstrings _ (.head _))) <|
      .cons (takes_unpackU64 _) <| .cons (takes_unpackU64 _) <|
      .cons (takes_stringPiece (hstrings _ (.tail _ <| .head _))) <| .pure _,
      rfl, rfl⟩
  case sendServerDeclaration =>
    have haddresses := haddresses (List.suffix_append [_, _, _, _, _, _, _, _] _)
    exact ⟨_,
      .cons (takes_unpackU16 _) <| .cons (takes_stringPiece (hstrings _ (.head _))) <|
      .cons (takes_unpackU64 _) <| .cons (takes_unpackU64 _) <|
      .cons (takes_stringPiece (hstrings _ (.tail _ <| .head _))) <|
      .cons (takes_stringPiece (hstrings _ (.tail _ <| .tail _ <| .head _))) <|
      .cons (takes_stringPiece (hstrings _ (.tail _ <| .tail _ <| .tail _ <| .head _))) <|
      .cons (takes_unpackU16 _) <| haddresses.bind_pure rfl,
      rfl, rfl⟩
  case startConnectionAttempt =>
    have haddresses := haddresses (List.suffix_append [_, _, _, _, _, _, _, _] _)
    exact ⟨_,
      .cons (takes_unpackU16 _) <| .cons (takes_stringPiece (hstrings _ (.head _))) <|
      .cons (takes_unpackU64 _) <| .cons (takes_unpackU64 _) <|
      .cons (takes_stringPiece (hstrings _ (.tail _ <| .head _))) <|
      .cons (takes_stringPiece (hstrings _ (.tail _ <| .tail _ <| .head _))) <|
      .cons (takes_unpackU64 _) <| .cons (takes_unpackU16 _) <|
      haddresses.bind_pure rfl,
      rfl, rfl⟩
  case startProxyConnection =>
    exact ⟨_,
      .cons (takes_unpackU16 _) <| .cons (takes_unpackU64 _) <| .cons (takes_unpackU64 _) <|
      .cons (takes_stringPiece (hstrings _ (.head _))) <| .cons (takes_unpackU64 _) <| .pure _,
      rfl, rfl⟩
  case sendPxdResponse =>
    exact ⟨_,
      .cons (takes_unpackU16 _) <| .cons (takes_unpackU64 _) <| .pure _,
      rfl, rfl⟩
  case sendCcdResponse =>
    cases address with
    | none =>
      exact ⟨_,
        .cons (takes_unpackU16 _) <| .cons (takes_unpackU64 _) <| .cons (takes_unpackU8 0) <|
        .pure _,
        rfl, rfl⟩
    | some address =>
      exact ⟨_,
        .cons (takes_unpackU16 _) <| .cons (takes_unpackU64 _) <| .cons (takes_unpackU8 1) <|
        .cons (takes_bytesPiece (hbytes _ (.tail _ <| .tail _ <| .tail _ <| .head _))) <|
        .cons (takes_unpackU32 _) <| .pure _,
        rfl, rfl⟩
  case setPxdConfiguration =>
    exact ⟨_, .cons (takes_unpackU16 _) <| (takes_unpackConfiguration _).bind_pure rfl, rfl, rfl⟩
  all_goals cases hpack

/-! ## The length of what is written -/

theorem length_stringPiece (string : List UInt8) :
    (stringPiece string).length = 2 + string.length % 65536 := by
  rw [stringPiece, List.length_append, length_toBytes, length_cut]

theorem length_bytesPiece (bytes : List UInt8) :
    (bytesPiece bytes).length = packedBytesLength bytes := by
  rw [bytesPiece, List.length_append, length_toBytes, packedBytesLength]

theorem sum_length_addressPieces (addresses : List Address) :
    ((addresses.flatMap addressPieces).map List.length).sum = addressesLength addresses := by
  induction addresses with
  | nil => rfl
  | cons address addresses ih =>
    rw [addressesLength] at ih ⊢
    rw [List.flatMap_cons, List.map_append, List.sum_append, ih, List.map_cons, List.sum_cons]
    simp [addressPieces, length_bytesPiece, packedAddressLength]

/-- What strings are longer than what is copied of them. -/
def cutLength (u : Unpacked) : Nat :=
  (u.strings.map fun string => 65536 * (string.length / 65536)).sum

/-- The length that is computed is that of what would be written, but for what is cut. -/
theorem fieldsLength_eq {u : Unpacked} {length : Nat} (h : u.fieldsLength = some length) :
    length = (u.pieces.map List.length).sum + u.cutLength := by
  obtain ⟨type, _, _, _, _, _, _, _, _, _, _, _, _, address, _, _, _, _, _, addresses,
    configuration⟩ := u
  cases type
  case setPxdConfiguration =>
    by_cases hextra : configuration.extra = 0 <;>
      simp [fieldsLength, pieces, checkedPieces, cutLength, strings, hextra, pxdConfigParams]
        at h ⊢ <;> omega
  case sendCcdResponse =>
    cases address <;>
      simp [fieldsLength, pieces, checkedPieces, cutLength, strings, length_bytesPiece] at h ⊢ <;>
      omega
  all_goals
    first
    | cases h; done
    | simp [fieldsLength, pieces, checkedPieces, cutLength, strings, length_bytesPiece,
        length_stringPiece, packedStringLength, sum_length_addressPieces] at h ⊢
      try omega

/-! ## The packet -/

/-- The header as it is read. -/
def readHeader (u : Unpacked) (length : Nat) : Header :=
  ⟨~~~UInt16.ofNat length, UInt16.ofNat length, u.type.code, u.connectionTag, u.asyncId,
    u.outSequence⟩

theorem takes_unpackHeader (u : Unpacked) {length : Nat} (h : length < 65536) :
    Takes unpackHeader (u.header length) (u.readHeader length) := by
  have hlen : toBytes 2 length = toBytes 2 (UInt16.ofNat length).toNat := by
    simp [Nat.mod_eq_of_lt h]
  have hpieces : u.header length = [toBytes 2 (~~~UInt16.ofNat length).toNat,
      toBytes 2 (UInt16.ofNat length).toNat, toBytes 2 u.type.code.toNat,
      toBytes 8 u.connectionTag.toNat, toBytes 8 u.asyncId.toNat,
      toBytes 8 u.outSequence.toNat].flatten := by
    simp [header, frameHead, hlen]
  rw [hpieces]
  exact .cons (takes_unpackU16 _) <| .cons (takes_unpackU16 _) <| .cons (takes_unpackU16 _) <|
    .cons (takes_unpackU64 _) <| .cons (takes_unpackU64 _) <| .cons (takes_unpackU64 _) <| .pure _

/-- With its own sequence number and tag a packet is decoded if its fields are. -/
theorem unpack_header {u v : Unpacked} {length : Nat} {body : List UInt8}
    (hlen : headerSize + body.length = length) (hlt : length < 65536) :
    (unpack (u.header length ++ body) u.outSequence u.connectionTag).1 = some v ↔
      ∃ rest, unpackFields (.ofHeader u.type (u.readHeader length)) body = some (v, rest) ∧
        rest.length = signatureLength u.type := by
  have hbytes : (u.header length ++ body).length = (UInt16.ofNat length).toNat := by
    rw [List.length_append, length_header, hlen]
    simp [Nat.mod_eq_of_lt hlt]
  rw [unpack, takes_unpackHeader u hlt body]
  simp only [readHeader, UInt16.not_not, ne_eq, not_true_eq_false, if_false, hbytes, ofCode_code]
  generalize unpackFields _ body = fields
  cases fields with
  | none => simp
  | some found =>
    obtain ⟨w, rest⟩ := found
    change (if rest.length = signatureLength u.type then (some w, u.outSequence + 1)
      else (none, u.outSequence + 1)).1 = some v ↔ _
    split
    · rename_i hrest
      simp [hrest]
    · rename_i hrest
      refine ⟨fun h => (by cases h), ?_⟩
      rintro ⟨_, heq, h⟩
      obtain ⟨-, rfl⟩ := Prod.mk.inj (Option.some.inj heq)
      exact absurd h hrest

/-! ## The buffer -/

/-- What fits of the fields, in order, fills a packet of the length, and those fields fit that
must. -/
def Fills (u : Unpacked) (length : Nat) : Prop :=
  headerSize + (u.checkedPieces.map List.length).sum ≤ length ∧
    headerSize + fitted (length - headerSize) (u.pieces.map List.length) +
      signatureLength u.type = length

instance (u : Unpacked) (length : Nat) : Decidable (u.Fills length) :=
  inferInstanceAs (Decidable (_ ∧ _))

section Buffer

variable {u : Unpacked} {length : Nat}

def zeros (u : Unpacked) : List UInt8 := List.replicate (signatureLength u.type) 0

theorem bytes_appendFields (b : Buffer UInt8 length) :
    (u.appendFields b).bytes = (b.appendAll u.pieces).bytes := by
  by_cases htype : u.type = declareServer
  · rw [appendFields_declareServer b htype, pieces, htype, Buffer.appendAll_append]
    rfl
  · rw [appendFields_eq_appendAll b htype, pieces_eq htype]

theorem failed_appendFields (b : Buffer UInt8 length) :
    (u.appendFields b).failed = (b.appendAll u.checkedPieces).failed := by
  by_cases htype : u.type = declareServer
  · rw [appendFields_declareServer b htype]
    rfl
  · rw [appendFields_eq_appendAll b htype]

theorem length_filled (h : headerSize ≤ length) (pieces : List (List UInt8)) :
    ((u.start length h).appendAll pieces).bytes.length =
      headerSize + fitted (length - headerSize) (pieces.map List.length) := by
  rw [Buffer.length_appendAll, start, length_header]

theorem packInto_of_fills (h : headerSize ≤ length) (hfills : u.Fills length) :
    packInto u length h = .packet (((u.start length h).appendAll u.pieces).bytes ++ u.zeros) := by
  obtain ⟨hchecked, hlen⟩ := hfills
  have hbytes := length_filled (u := u) h u.pieces
  have hroom : u.zeros.length ≤ length - (u.appendFields (u.start length h)).bytes.length := by
    rw [bytes_appendFields, hbytes, zeros, List.length_replicate]
    omega
  have hfailed : ¬((u.appendFields (u.start length h)).append u.zeros).failed = true := by
    rw [Buffer.failed_append, failed_appendFields, Buffer.failed_appendAll, start, length_header]
    simp only [Bool.false_eq_true, false_or]
    have hroom := Nat.not_lt.2 hroom
    exact fun hor => hor.elim (Nat.not_lt.2 hchecked) hroom
  have hfull : ((u.appendFields (u.start length h)).append u.zeros).bytes =
      ((u.start length h).appendAll u.pieces).bytes ++ u.zeros := by
    rw [Buffer.bytes_append, if_pos hroom, bytes_appendFields]
  have hexact : ((u.appendFields (u.start length h)).append u.zeros).bytes.length = length := by
    rw [hfull, List.length_append, hbytes, zeros, List.length_replicate, hlen]
  have hok : ¬(((u.appendFields (u.start length h)).append u.zeros).failed = true ∨
      ((u.appendFields (u.start length h)).append u.zeros).bytes.length ≠ length) :=
    fun hor => hor.elim hfailed fun hne => hne hexact
  exact (if_neg hok).trans (congrArg Packed.packet hfull)

theorem packInto_of_not_fills (h : headerSize ≤ length) (hfills : ¬u.Fills length) :
    packInto u length h = .null := by
  have hbytes := length_filled (u := u) h u.pieces
  refine if_pos ?_
  by_contra hok
  obtain ⟨hfailed, hexact⟩ := not_or.1 hok
  change ¬((u.appendFields (u.start length h)).append u.zeros).failed = true at hfailed
  change ¬((u.appendFields (u.start length h)).append u.zeros).bytes.length ≠ length at hexact
  rw [Buffer.failed_append, failed_appendFields, Buffer.failed_appendAll, start, length_header,
    not_or, not_or] at hfailed
  obtain ⟨⟨-, hchecked⟩, hroom⟩ := hfailed
  have hroom : u.zeros.length ≤ length - (u.appendFields (u.start length h)).bytes.length :=
    Nat.not_lt.1 hroom
  rw [Buffer.bytes_append, if_pos hroom, List.length_append, bytes_appendFields, hbytes, zeros,
    List.length_replicate, not_not] at hexact
  exact hfills ⟨Nat.not_lt.1 hchecked, hexact⟩

/-- When all fields fit, they are all in the packet. -/
theorem filled_eq (h : headerSize ≤ length)
    (hfit : headerSize + (u.pieces.map List.length).sum ≤ length) :
    ((u.start length h).appendAll u.pieces).bytes = u.header length ++ u.pieces.flatten := by
  rw [Buffer.bytes_appendAll]
  · rfl
  · rwa [start, length_header]

/-- When they do not all fit, the type is the one whose addresses may be missing. -/
theorem filled_of_not_fit (h : headerSize ≤ length) (hfills : u.Fills length)
    (hfit : ¬headerSize + (u.pieces.map List.length).sum ≤ length) :
    u.type = declareServer ∧ ∃ addresses,
      ((u.start length h).appendAll u.pieces).bytes =
        u.header length ++ (u.checkedPieces.flatten ++ addresses) ∧
      addresses.length < addressesLength u.addresses := by
  have htype : u.type = declareServer := by
    by_contra htype
    rw [pieces_eq htype] at hfit
    exact hfit hfills.1
  have hpieces : u.pieces = u.checkedPieces ++ u.addresses.flatMap addressPieces := by
    rw [pieces, htype]
  have hhead : ((u.start length h).appendAll u.checkedPieces).bytes =
      u.header length ++ u.checkedPieces.flatten :=
    Buffer.bytes_appendAll (by rw [start, length_header]; exact hfills.1)
  obtain ⟨addresses, haddresses⟩ := Buffer.bytes_isPrefix_appendAll
    ((u.start length h).appendAll u.checkedPieces) (u.addresses.flatMap addressPieces)
  rw [hhead] at haddresses
  refine ⟨htype, addresses, ?_, ?_⟩
  · rw [hpieces, Buffer.appendAll_append, ← haddresses, List.append_assoc]
  · have hlen := length_filled (u := u) h u.pieces
    have hle := fitted_le (length - headerSize) (u.pieces.map List.length)
    rw [hpieces, List.map_append, List.sum_append, sum_length_addressPieces] at hfit
    nth_rewrite 1 [hpieces] at hlen
    rw [Buffer.appendAll_append, ← haddresses, List.length_append, List.length_append,
      List.length_flatten, length_header] at hlen
    omega

end Buffer

/-! ## Missing addresses -/

section Addresses

variable {bs rest : List UInt8}

theorem length_of_unpackU {n v : Nat} (h : unpackU n bs = some (v, rest)) :
    bs.length = n + rest.length := by
  rw [unpackU] at h
  split at h
  · cases h
  · obtain ⟨-, rfl⟩ := Prod.mk.inj (Option.some.inj h)
    rw [List.length_drop]
    omega

theorem of_map_eq_some {α β : Type} {m : Unpack α} {f : α → β} {b : β}
    (h : (f <$> m) bs = some (b, rest)) : ∃ a, m bs = some (a, rest) ∧ f a = b := by
  obtain ⟨⟨a, back⟩, ha, h⟩ := Option.bind_eq_some_iff.1 h
  obtain ⟨rfl, rfl⟩ := Prod.mk.inj (Option.some.inj h)
  exact ⟨a, ha, rfl⟩

theorem length_of_unpackBytes {bytes : List UInt8} (h : unpackBytes bs = some (bytes, rest)) :
    bs.length = packedBytesLength bytes + rest.length := by
  obtain ⟨⟨length, back⟩, hlength, h⟩ := Option.bind_eq_some_iff.1 h
  obtain ⟨v, hv, -⟩ := of_map_eq_some hlength
  have hbs := length_of_unpackU hv
  dsimp only at h
  split at h
  · cases h
  · obtain ⟨rfl, rfl⟩ := Prod.mk.inj (Option.some.inj h)
    rw [packedBytesLength, List.length_take, List.length_drop]
    omega

theorem length_of_unpackAddress {a : Address} (h : unpackAddress bs = some (a, rest))
    (hrest : 4 ≤ rest.length) : bs.length = packedAddressLength a + rest.length := by
  obtain ⟨⟨ipAddress, back⟩, hip, h⟩ := Option.bind_eq_some_iff.1 h
  have hbs := length_of_unpackBytes hip
  dsimp only at h
  split at h
  · cases h
  · cases hport : unpackU32 back with
    | none =>
      -- A port that is cut off leaves too little behind.
      have hshort : back.length < 4 := by
        by_contra hroom
        have hsome := map_eq_some (m := unpackU 4) (if_neg hroom) UInt32.ofNat
        cases hport.symm.trans hsome
      rw [hport, Option.getD_none] at h
      cases back with
      | nil => cases h
      | cons type back =>
        obtain ⟨-, rfl⟩ := Prod.mk.inj (Option.some.inj h)
        rw [List.length_cons] at hshort
        omega
    | some found =>
      obtain ⟨port, back'⟩ := found
      obtain ⟨v, hv, -⟩ := of_map_eq_some hport
      have hback := length_of_unpackU hv
      rw [hport, Option.getD_some] at h
      cases back' with
      | nil => cases h
      | cons type back' =>
        obtain ⟨rfl, rfl⟩ := Prod.mk.inj (Option.some.inj h)
        rw [List.length_cons] at hback
        change bs.length = packedBytesLength ipAddress + 4 + 1 + back'.length
        omega

theorem length_of_unpackAddresses {n : Nat} {addresses : List Address}
    (h : unpackAddresses n bs = some (addresses, rest)) (hrest : 4 ≤ rest.length) :
    bs.length = addressesLength addresses + rest.length := by
  induction n generalizing bs addresses with
  | zero =>
    obtain ⟨rfl, rfl⟩ := Prod.mk.inj (Option.some.inj h)
    simp [addressesLength]
  | succ n ih =>
    obtain ⟨⟨a, back⟩, ha, h⟩ := Option.bind_eq_some_iff.1 h
    obtain ⟨⟨as, back'⟩, has, h⟩ := Option.bind_eq_some_iff.1 h
    obtain ⟨rfl, rfl⟩ := Prod.mk.inj (Option.some.inj h)
    have hback := ih has
    rw [length_of_unpackAddress ha (by omega), hback]
    simp only [addressesLength, List.map_cons, List.sum_cons]
    omega

end Addresses

/-- When addresses are missing, what is decoded is not what was packed. -/
theorem fields_ne_of_missing {u v : Unpacked} (htype : u.type = declareServer)
    (hstrings : u.CStrings) (h : Header) {addresses rest : List UInt8}
    (hmissing : addresses.length < addressesLength u.addresses)
    (hv : unpackFields (.ofHeader u.type h) (u.checkedPieces.flatten ++ (addresses ++ u.zeros)) =
      some (v, rest)) (hrest : rest.length = signatureLength u.type) : v.fields ≠ u.fields := by
  obtain ⟨type, _, _, _, _, _, _, _, _, _, _, _, _, _, _, _, _, _, _, all, _⟩ := u
  obtain rfl : type = declareServer := htype
  simp only [checkedPieces, List.flatten_cons, List.flatten_nil, List.append_assoc,
    List.nil_append] at hv
  have hv := (takes_unpackU16 _).of_bind hv
  have hv := (takes_stringPiece (hstrings _ (.head _))).of_bind hv
  have hv := (takes_unpackU64 _).of_bind hv
  have hv := (takes_unpackU64 _).of_bind hv
  have hv := (takes_stringPiece (hstrings _ (.tail _ <| .head _))).of_bind hv
  have hv := (takes_stringPiece (hstrings _ (.tail _ <| .tail _ <| .head _))).of_bind hv
  have hv := (takes_stringPiece (hstrings _ (.tail _ <| .tail _ <| .tail _ <| .head _))).of_bind hv
  have hv := (takes_unpackU16 _).of_bind hv
  obtain ⟨⟨found, back⟩, hfound, hv⟩ := Option.bind_eq_some_iff.1 hv
  obtain ⟨rfl, rfl⟩ := Prod.mk.inj (Option.some.inj hv)
  have hroom : 4 ≤ signatureLength declareServer := by decide
  have hlen := length_of_unpackAddresses hfound (hroom.trans_eq hrest.symm)
  rw [List.length_append, hrest, zeros, List.length_replicate] at hlen
  intro heq
  obtain rfl : found = all := by
    simpa [fields, ofHeader] using congrArg (fun fields => fields.getLast?) heq
  have hmissing : addresses.length < addressesLength found := hmissing
  omega

/-! ## Packing and unpacking -/

/-- The packet is one that can be sent, and decoded under the tag and the sequence number it was
packed with, to the fields it was packed from. -/
def RoundTrips (maxPacketSize : Nat) (u : Unpacked) : Prop :=
  match pxdPack maxPacketSize u with
  | .null => True
  | .overrun => False
  | .packet bytes => bytes.length ≤ maxPacketSize ∧
    ∃ v, (unpack bytes u.outSequence u.connectionTag).1 = some v ∧ v.fields = u.setVersion.fields

/-- What a `short` can be at most without being above the limit. -/
def shortLimit (maxPacketSize : Nat) : Nat :=
  min maxPacketSize 32767

/-- The version is the one that the type writes, and if the length wraps, then to one that is too
large, or that has room for the header and is not filled by what is written. -/
structure Sound (maxPacketSize : Nat) (u : Unpacked) (length : Nat) : Prop where
  version : length ≤ shortLimit maxPacketSize → u.writtenVersion = u.version
  header : 65536 ≤ length → length % 65536 ≤ shortLimit maxPacketSize →
    headerSize ≤ length % 65536
  wrapped : 65536 ≤ length → length % 65536 ≤ shortLimit maxPacketSize →
    ¬u.Fills (length % 65536)

section RoundTrips

variable {u : Unpacked} {maxPacketSize length : Nat}

theorem cut_eq_self {string : List UInt8} : cut string = string ↔ string.length / 65536 = 0 := by
  rw [cut, List.take_eq_self_iff]
  simp
  omega

theorem written_fields_iff (hpack : u.fieldsLength.isSome) :
    u.written.fields = u.fields ↔ u.cutLength = 0 ∧ u.writtenVersion = u.version := by
  obtain ⟨type, _, _, _, _, _, _, _, _, _, _, _, _, _, _, _, _, _, _, _, _⟩ := u
  cases type
  all_goals
    first
    | cases hpack; done
    | simp [fields, written, cutLength, strings, writtenVersion, cut_eq_self]
      try tauto

/-- What is left of the length after it was put in a `short`. -/
theorem pxdPack_eq (h : u.setVersion.packedLength = some length) : pxdPack maxPacketSize u =
    if shortLimit maxPacketSize < length % 65536 then .null
    else if hroom : headerSize ≤ length % 65536 then
      packInto u.setVersion (length % 65536) hroom
    else .overrun := by
  have hint : (Int16.ofNat length).toInt = (length : Int).bmod 65536 := Int16.toInt_ofNat'
  rw [Int.bmod_def] at hint
  simp only [pxdPack, h]
  generalize (Int16.ofNat length).toInt = reqLength at hint
  unfold shortLimit
  by_cases hbig : min maxPacketSize 32767 < length % 65536
  · rw [if_pos hbig]
    by_cases hneg : reqLength < 0
    · rw [if_neg (by omega), if_pos hneg]
    · rw [if_pos (by omega)]
  · have hnat : reqLength = (length % 65536 : Nat) := by omega
    subst hnat
    rw [if_neg hbig, if_neg (by omega), if_neg (by omega)]
    simp only [Int.toNat_natCast]

theorem packedLength_eq (h : u.packedLength = some length) :
    length = headerSize + (u.pieces.map List.length).sum + u.cutLength +
      signatureLength u.type := by
  obtain ⟨n, hn, rfl⟩ := Option.map_eq_some_iff.1 h
  rw [fieldsLength_eq hn]
  omega

theorem length_of_fills (hroom : headerSize ≤ length) (hfills : u.Fills length) :
    (((u.start length hroom).appendAll u.pieces).bytes ++ u.zeros).length = length := by
  rw [List.length_append, length_filled, zeros, List.length_replicate]
  exact hfills.2

theorem cutLength_mod (u : Unpacked) : u.cutLength % 65536 = 0 := by
  rw [cutLength]
  induction u.strings with
  | nil => rfl
  | cons string strings ih =>
    rw [List.map_cons, List.sum_cons]
    omega

theorem setVersion_header (u : Unpacked) : u.setVersion.outSequence = u.outSequence ∧
    u.setVersion.connectionTag = u.connectionTag := by
  unfold setVersion
  split <;> exact ⟨rfl, rfl⟩

theorem setVersion_strings (u : Unpacked) : u.setVersion.strings = u.strings := by
  obtain ⟨type, _, _, _, _, _, _, _, _, _, _, _, _, _, _, _, _, _, _, _, _⟩ := u
  cases type <;> rfl

/-- When all fields fit, what is decoded is what was written. -/
theorem unpack_of_fit (hstrings : u.CStrings) (hpack : u.fieldsLength.isSome)
    (hroom : headerSize ≤ length) (hlt : length < 65536) (hfills : u.Fills length)
    (hfit : headerSize + (u.pieces.map List.length).sum ≤ length) :
    ∃ v, (unpack (((u.start length hroom).appendAll u.pieces).bytes ++ u.zeros) u.outSequence
      u.connectionTag).1 = some v ∧ v.fields = u.written.fields := by
  have hsmall : u.pieces.flatten.length < 65536 := by
    rw [List.length_flatten]
    omega
  obtain ⟨v, hv, -, hfields⟩ := takes_fields hpack hstrings hsmall (u.readHeader length)
  have hlen := length_of_fills hroom hfills
  rw [filled_eq hroom hfit, List.append_assoc] at hlen ⊢
  rw [List.length_append, length_header] at hlen
  exact ⟨v, (unpack_header hlen hlt).2 ⟨u.zeros, hv u.zeros, List.length_replicate⟩, hfields⟩

/-- A packet that passes the check of its length is decoded to its fields if the length did not
wrap, and the version is the one written. -/
theorem roundTrips_iff_of_room (hstrings : u.CStrings)
    (h : u.setVersion.packedLength = some length) (hroom : headerSize ≤ length % 65536)
    (hle : length % 65536 ≤ shortLimit maxPacketSize) :
    u.RoundTrips maxPacketSize ↔ (u.setVersion.Fills (length % 65536) →
      length < 65536 ∧ u.setVersion.writtenVersion = u.setVersion.version) := by
  have hpxd : pxdPack maxPacketSize u = _ := pxdPack_eq h
  rw [if_neg (Nat.not_lt.2 hle), dif_pos hroom] at hpxd
  replace hle := hle.trans (Nat.min_le_left ..)
  have hlen := packedLength_eq h
  have hmod := u.setVersion.cutLength_mod
  have hstrings : u.setVersion.CStrings := fun string hmem =>
    hstrings string (setVersion_strings u ▸ hmem)
  have hpack : u.setVersion.fieldsLength.isSome := by
    rw [← Option.isSome_map, Option.isSome_iff_exists]
    exact ⟨length, h⟩
  obtain ⟨hseq, htag⟩ := setVersion_header u
  rw [RoundTrips, hpxd, ← hseq, ← htag]
  generalize u.setVersion = w at *
  have hlt : length % 65536 < 65536 := Nat.mod_lt _ (by decide)
  by_cases hfills : w.Fills (length % 65536)
  · rw [packInto_of_fills hroom hfills]
    simp only [hfills, true_imp_iff, length_of_fills hroom hfills, hle, true_and]
    by_cases hfit : headerSize + (w.pieces.map List.length).sum ≤ length % 65536
    · obtain ⟨v, hv, hfields⟩ := unpack_of_fit hstrings hpack hroom hlt hfills hfit
      have hcut : length < 65536 ↔ w.cutLength = 0 := by
        have hexact := hfills.2
        rw [fitted_eq_sum (by omega)] at hexact
        omega
      rw [hcut, ← written_fields_iff hpack, ← hfields]
      constructor
      · rintro ⟨v', hv', hfields'⟩
        rwa [Option.some.inj (hv.symm.trans hv')]
      · exact fun heq => ⟨v, hv, heq⟩
    · obtain ⟨htype, addresses, hbytes, hmissing⟩ := filled_of_not_fit hroom hfills hfit
      have hwrapped : ¬length < 65536 := by
        intro hsmall
        rw [Nat.mod_eq_of_lt hsmall] at hfit
        omega
      refine iff_of_false ?_ fun h => hwrapped h.1
      rintro ⟨v, hv, hfields⟩
      refine absurd hfields ?_
      have hexact := length_of_fills hroom hfills
      rw [hbytes, List.append_assoc] at hv hexact
      rw [List.length_append, length_header] at hexact
      obtain ⟨rest, hunpack, hrest⟩ := (unpack_header hexact hlt).1 hv
      rw [List.append_assoc] at hunpack
      exact fields_ne_of_missing htype hstrings _ hmissing hunpack hrest
  · rw [packInto_of_not_fills hroom hfills]
    simp [hfills]

end RoundTrips

/-- A packet whose length does not wrap is filled by its fields. -/
theorem fills_of_lt {u : Unpacked} {length : Nat} (h : u.packedLength = some length)
    (hlt : length < 65536) : u.Fills length := by
  have hlen := packedLength_eq h
  have hmod := u.cutLength_mod
  have hsum : (u.checkedPieces.map List.length).sum ≤ (u.pieces.map List.length).sum := by
    unfold pieces
    split
    · rw [List.map_append, List.sum_append]
      omega
    · exact Nat.le_refl _
  refine ⟨by omega, ?_⟩
  rw [fitted_eq_sum (by omega)]
  omega

/-- A packet is decoded to its fields unless its length wraps so that strings were cut or
addresses left out, or the header does not fit, or its version is not the one written. -/
theorem roundTrips_iff_sound (maxPacketSize : Nat) {u : Unpacked} (h : u.CStrings) :
    u.RoundTrips maxPacketSize ↔
      ∀ length, u.setVersion.packedLength = some length →
        u.setVersion.Sound maxPacketSize length := by
  cases hlen : u.setVersion.packedLength with
  | none =>
    have hnull : pxdPack maxPacketSize u = .null := by simp only [pxdPack, hlen]
    rw [RoundTrips, hnull]
    exact ⟨fun _ length hsome => (by cases hsome), fun _ => trivial⟩
  | some length =>
    have hmin := packedLength_eq hlen
    have hshort : shortLimit maxPacketSize ≤ 32767 := Nat.min_le_right ..
    suffices hiff : u.RoundTrips maxPacketSize ↔ u.setVersion.Sound maxPacketSize length by
      rw [hiff]
      exact ⟨fun hsound _ hsome => Option.some.inj hsome ▸ hsound, fun hall => hall length rfl⟩
    by_cases hbig : shortLimit maxPacketSize < length % 65536
    · have hnull : pxdPack maxPacketSize u = .null := by rw [pxdPack_eq hlen, if_pos hbig]
      have hlarge : ¬length ≤ shortLimit maxPacketSize := fun hle =>
        absurd ((Nat.mod_le length 65536).trans hle) (Nat.not_le.2 hbig)
      rw [RoundTrips, hnull]
      exact ⟨fun _ => ⟨fun hle => absurd hle hlarge, fun _ hle => absurd hle (Nat.not_le.2 hbig),
        fun _ hle => absurd hle (Nat.not_le.2 hbig)⟩, fun _ => trivial⟩
    · have hle := Nat.not_lt.1 hbig
      by_cases hroom : headerSize ≤ length % 65536
      · rw [roundTrips_iff_of_room h hlen hroom hle]
        by_cases hsmall : length < 65536
        · rw [Nat.mod_eq_of_lt hsmall] at hle ⊢
          have hfills := fills_of_lt hlen hsmall
          simp only [hfills, true_imp_iff]
          exact ⟨fun hversion => ⟨fun _ => hversion.2, fun hlarge => absurd hsmall hlarge.not_gt,
            fun hlarge => absurd hsmall hlarge.not_gt⟩, fun hsound => ⟨hsmall, hsound.version hle⟩⟩
        · have hlarge := Nat.not_lt.1 hsmall
          simp only [hsmall, false_and, imp_false]
          refine ⟨fun hfills => ⟨fun hle => ?_, fun _ _ => hroom, fun _ _ => hfills⟩,
            fun hsound => hsound.wrapped hlarge hle⟩
          omega
      · have hover : pxdPack maxPacketSize u = .overrun := by
          rw [pxdPack_eq hlen, if_neg hbig, dif_neg hroom]
        have hlarge : 65536 ≤ length := by
          by_contra hsmall
          rw [Nat.mod_eq_of_lt (Nat.not_le.1 hsmall)] at hroom
          omega
        rw [RoundTrips, hover]
        exact ⟨fun hfalse => hfalse.elim, fun hsound => hroom (hsound.header hlarge hle)⟩

/-! ### A declaration and a query -/

def someHeader (type : PacketType) : Header := ⟨0, 0, type.code, 885551212, 17, 32⟩

def someDeclaration : Unpacked :=
  { ofHeader declareServer (someHeader declareServer) with
    version := 1
    region := [82, 49]
    userId := 5
    deviceId := 6
    instanceId := [73]
    ansDns := [97, 110, 115]
    pxdDns := [112, 120, 100]
    addresses := [⟨[10, 0, 0, 1], 32768, 1⟩, ⟨[10, 0, 0, 2], 65536, 1⟩] }

theorem roundTrips_iff_sound_someDeclaration : someDeclaration.RoundTrips 8192 := by
  have hstrings : someDeclaration.CStrings := by decide
  have hlen : someDeclaration.setVersion.packedLength = some 109 := by decide
  refine (roundTrips_iff_sound 8192 hstrings).2 fun length hsome => ?_
  obtain rfl : 109 = length := Option.some.inj (hlen.symm.trans hsome)
  exact ⟨fun _ => rfl, by decide, by decide⟩

def queryFor (region : List UInt8) : Unpacked :=
  { ofHeader queryServerDeclaration (someHeader queryServerDeclaration) with
    version := 1
    region := region
    userId := 5
    deviceId := 6
    instanceId := [73] }

/-- A region that is one byte longer than its length field can say. -/
theorem not_roundTrips_queryFor {region : List UInt8} (h0 : 0 ∉ region)
    (hregion : region.length = 65536) : ¬(queryFor region).RoundTrips 8192 := by
  have hstrings : (queryFor region).CStrings := by
    simp [CStrings, strings, queryFor, ofHeader, h0]
  have hlen : (queryFor region).setVersion.packedLength = some 65609 := by
    simp [packedLength, fieldsLength, setVersion, queryFor, ofHeader, packedStringLength,
      signatureLength, isSigned, code, headerSize, signatureSize, hregion]
  have hfills : (queryFor region).setVersion.Fills 73 := by
    simp [Fills, checkedPieces, pieces, setVersion, queryFor, ofHeader, length_stringPiece,
      fitted, signatureLength, isSigned, code, headerSize, signatureSize, hregion]
  intro hround
  have hsmall := (roundTrips_iff_of_room hstrings hlen (by decide) (by decide)).1 hround hfills
  exact absurd hsmall.1 (by decide)

theorem not_roundTrips_longRegion : (queryFor (List.replicate 65536 97)).CStrings ∧
    ¬(queryFor (List.replicate 65536 97)).RoundTrips 8192 := by
  have h0 : (0 : UInt8) ∉ List.replicate 65536 97 := fun hmem =>
    absurd (List.eq_of_mem_replicate hmem) (by decide)
  refine ⟨fun string hmem => ?_, not_roundTrips_queryFor h0 List.length_replicate⟩
  obtain rfl | hmem := List.mem_cons.1 hmem
  · exact h0
  · obtain rfl := List.mem_singleton.1 hmem
    decide

end Unpacked

end PersonalCloud.Pxd
