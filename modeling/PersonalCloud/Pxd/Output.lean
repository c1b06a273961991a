import Mathlib.Data.List.TakeDrop
import PersonalCloud.Lib.Run
import PersonalCloud.Pxd.Commands
import PersonalCloud.Pxd.Packing

/-!
# The output stream

Packets wait in a queue until the socket takes them. The one at the head is given the tag of
the connection, the next sequence number and its signature, and is then written by as many
sends as it takes; after that comes the next. When a connection is lost, the packets that are
left are prepared again for the one that follows.

Packets are put at the end of the queue by any thread; the rest is done by the thread of the
client. The keys are those of the first connection, which is kept for the server that it was
made to. A packet that was shortened by so much that its signature would be written before its
buffer ends the run.

## Main results

* `checkSignature_stamped`, `unpackHeader_stamped` — a packet as it ought to be sent has its
  number, and passes the check of its signature.
* `line_step` — the order in which packets get to be written.
* `intact_of_meets` — the bytes on every connection are the packets in this order, as long as
  no packet is in part written when the connection is lost, and none put in front of one that
  is prepared.
-/

namespace PersonalCloud.Pxd

open PersonalCloud.Lib PacketType

/-! ## Packets -/

/-- A packet as it is packed. -/
structure PackedPacket where
  type : PacketType
  asyncId : UInt64
  /-- The caller's pointer. -/
  opOpaque : Option Nat
  bytes : List UInt8
  framed : Framed type.code bytes
  deriving DecidableEq

namespace PackedPacket

/-- The packet that packing comes to, with the caller's pointer. -/
def ofUnpacked (maxPacketSize : Nat) (u : Unpacked) (opOpaque : Option Nat) :
    Option PackedPacket :=
  match h : pxdPack maxPacketSize u with
  | .packet bytes => some ⟨u.type, u.asyncId, opOpaque, bytes, (framed_of_pxdPack h).1⟩
  | _ => none

/-- The operation id. -/
def asyncPart (p : PackedPacket) : List UInt8 :=
  (p.bytes.drop (tagOffset + 8)).take 8

/-- What is between the header and the signature. -/
def fields (p : PackedPacket) : List UInt8 :=
  (p.bytes.drop headerSize).take (p.bytes.length - headerSize - signatureLength p.type)

/-- The packet with the tag, the sequence number and the signature given. -/
def image (p : PackedPacket) (tag sequence sig : List UInt8) : List UInt8 :=
  p.bytes.take tagOffset ++ (tag ++ (p.asyncPart ++ (sequence ++ (p.fields ++ sig))))

section Image

variable {p : PackedPacket} {tag sequence sig : List UInt8}

theorem headerSize_add_le : headerSize + signatureLength p.type ≤ p.bytes.length := by
  rw [signatureLength]
  split_ifs with h
  · exact p.framed.room h
  · exact p.framed.headerSize_le

theorem length_asyncPart : p.asyncPart.length = 8 := by
  have : 30 ≤ p.bytes.length := p.framed.headerSize_le
  simp only [asyncPart, tagOffset, List.length_take, List.length_drop]
  omega

theorem length_head : (p.bytes.take tagOffset).length = tagOffset := by
  have : 30 ≤ p.bytes.length := p.framed.headerSize_le
  simp only [tagOffset, List.length_take]
  omega

theorem length_fields :
    p.fields.length + signatureLength p.type + headerSize = p.bytes.length := by
  have := headerSize_add_le (p := p)
  simp only [fields, headerSize, List.length_take, List.length_drop] at this ⊢
  omega

theorem length_image (htag : tag.length = 8) (hseq : sequence.length = 8)
    (hsig : sig.length = signatureLength p.type) :
    (p.image tag sequence sig).length = p.bytes.length := by
  have := length_fields (p := p)
  simp only [image, List.length_append, length_head, length_asyncPart, htag, hseq, hsig,
    tagOffset, headerSize] at this ⊢
  omega

theorem framed_image (htag : tag.length = 8) (hseq : sequence.length = 8)
    (hsig : sig.length = signatureLength p.type) :
    Framed p.type.code (p.image tag sequence sig) := by
  have hlen := length_image htag hseq hsig
  refine ⟨hlen.symm ▸ p.framed.headerSize_le, hlen.symm ▸ p.framed.length_lt, ?_,
    fun h => hlen.symm ▸ p.framed.room h⟩
  rw [hlen, ← p.framed.take_eq, image, List.take_left' length_head]

theorem image_eq_append : p.image tag sequence sig = p.image tag sequence [] ++ sig := by
  simp only [image, List.append_assoc, List.append_nil]

theorem length_image_nil (htag : tag.length = 8) (hseq : sequence.length = 8) :
    (p.image tag sequence []).length = p.bytes.length - signatureLength p.type := by
  have := length_fields (p := p)
  simp only [image, List.length_append, length_head, length_asyncPart, htag, hseq,
    List.length_nil, tagOffset, headerSize] at this ⊢
  omega

variable {bs : List UInt8}

theorem writeAt_image_sequence (htag : tag.length = 8) (hseq : sequence.length = 8)
    (hbs : bs.length = 8) :
    writeAt (p.image tag sequence sig) sequenceOffset bs = p.image tag bs sig := by
  have hoff : (p.bytes.take tagOffset ++ (tag ++ p.asyncPart)).length = sequenceOffset := by
    simp only [List.length_append, length_head, htag, length_asyncPart]
  have himage (cs : List UInt8) : p.image tag cs sig =
      p.bytes.take tagOffset ++ (tag ++ p.asyncPart) ++ (cs ++ (p.fields ++ sig)) := by
    simp only [image, List.append_assoc]
  rw [himage, himage, ← hoff, writeAt_middle (hbs.trans hseq.symm)]

theorem writeAt_image_tag (htag : tag.length = 8) (hbs : bs.length = 8) :
    writeAt (p.image tag sequence sig) tagOffset bs = p.image bs sequence sig := by
  have hoff : (p.bytes.take tagOffset).length = tagOffset := length_head
  nth_rewrite 1 [← hoff]
  exact writeAt_middle (hbs.trans htag.symm)

theorem writeAt_image_signature (htag : tag.length = 8) (hseq : sequence.length = 8)
    (hbs : bs.length = sig.length) :
    writeAt (p.image tag sequence sig) (p.bytes.length - signatureLength p.type) bs =
      p.image tag sequence bs := by
  have himage (cs : List UInt8) :
      p.image tag sequence cs = p.image tag sequence [] ++ (cs ++ []) := by
    rw [image_eq_append, List.append_nil]
  rw [himage sig, himage bs, ← length_image_nil htag hseq, writeAt_middle hbs]

theorem take_image (htag : tag.length = 8) (hseq : sequence.length = 8) :
    (p.image tag sequence sig).take (p.bytes.length - signatureLength p.type) =
      p.image tag sequence [] := by
  rw [image_eq_append, List.take_left' (length_image_nil htag hseq)]

theorem drop_image (htag : tag.length = 8) (hseq : sequence.length = 8) :
    (p.image tag sequence sig).drop (p.bytes.length - signatureLength p.type) = sig := by
  rw [image_eq_append, List.drop_left' (length_image_nil htag hseq)]

end Image

/-- The bytes are those of the packet but for the tag, the sequence number and the
signature. -/
def IsImage (p : PackedPacket) (base : List UInt8) : Prop :=
  ∃ tag sequence sig, tag.length = 8 ∧ sequence.length = 8 ∧
    sig.length = signatureLength p.type ∧ base = p.image tag sequence sig

theorem isImage_bytes (p : PackedPacket) : p.IsImage p.bytes := by
  have hmin := headerSize_add_le (p := p)
  refine ⟨(p.bytes.drop tagOffset).take 8, (p.bytes.drop sequenceOffset).take 8,
    (p.bytes.drop headerSize).drop (p.bytes.length - headerSize - signatureLength p.type),
    ?_, ?_, ?_, ?_⟩
  · simp only [List.length_take, List.length_drop, tagOffset, headerSize] at hmin ⊢
    omega
  · simp only [List.length_take, List.length_drop, sequenceOffset, headerSize] at hmin ⊢
    omega
  · simp only [List.length_drop, headerSize] at hmin ⊢
    omega
  · have hseq := List.drop_take_append_drop p.bytes sequenceOffset 8
    have hasync := List.drop_take_append_drop p.bytes (tagOffset + 8) 8
    have htag := List.drop_take_append_drop p.bytes tagOffset 8
    rw [image, fields, List.take_append_drop, hseq, asyncPart, hasync, htag,
      List.take_append_drop]

section Stamped

variable (prim : Primitives) (crypto : Crypto) (tag sequence : UInt64) (p : PackedPacket)

/-- What ends a packet that starts with the given bytes. -/
def signaturePart (bytes : List UInt8) : List UInt8 :=
  if isSigned p.type.code then signature prim crypto bytes else []

/-- The packet as it is to be sent: with the tag of the connection, its sequence number and a
signature over all of it. -/
def stamped : List UInt8 :=
  let image := p.image (toBytes 8 tag.toNat) (toBytes 8 sequence.toNat)
  image (p.signaturePart prim crypto (image []))

theorem length_signaturePart (bytes : List UInt8) :
    (p.signaturePart prim crypto bytes).length = signatureLength p.type := by
  rw [signaturePart, signatureLength]
  split <;> simp

theorem isImage_stamped : p.IsImage (p.stamped prim crypto tag sequence) :=
  ⟨_, _, _, length_toBytes _ _, length_toBytes _ _, p.length_signaturePart prim crypto _, rfl⟩

theorem length_stamped : (p.stamped prim crypto tag sequence).length = p.bytes.length :=
  length_image (length_toBytes _ _) (length_toBytes _ _) (p.length_signaturePart prim crypto _)

theorem framed_stamped : Framed p.type.code (p.stamped prim crypto tag sequence) :=
  framed_image (length_toBytes _ _) (length_toBytes _ _) (p.length_signaturePart prim crypto _)

/-- The header of a packet as it ought to be sent, in the parts that are decoded. -/
theorem stamped_eq_append : ∃ rest, p.stamped prim crypto tag sequence =
    toBytes 2 (~~~UInt16.ofNat p.bytes.length).toNat ++
      (toBytes 2 (UInt16.ofNat p.bytes.length).toNat ++ (toBytes 2 p.type.code.toNat ++
        (toBytes 8 tag.toNat ++ (p.asyncPart ++ (toBytes 8 sequence.toNat ++ rest))))) := by
  have hlen : (UInt16.ofNat p.bytes.length).toNat = p.bytes.length := by
    rw [UInt16.toNat_ofNat', Nat.mod_eq_of_lt p.framed.length_lt]
  refine ⟨p.fields ++ p.signaturePart prim crypto (p.image (toBytes 8 tag.toNat)
    (toBytes 8 sequence.toNat) []), ?_⟩
  rw [stamped, image, p.framed.take_eq, frameHead, hlen]
  simp only [List.append_assoc]

/-- The header of a packet as it ought to be sent has the number and the tag. -/
theorem unpackHeader_stamped : ∃ asyncId body,
    unpackHeader (p.stamped prim crypto tag sequence) =
      some (⟨~~~UInt16.ofNat p.bytes.length, UInt16.ofNat p.bytes.length, p.type.code, tag, asyncId,
        sequence⟩, body) := by
  obtain ⟨rest, h⟩ := stamped_eq_append prim crypto tag sequence p
  refine ⟨UInt64.ofNat (ofBytes p.asyncPart), rest, ?_⟩
  rw [h]
  simp only [unpackHeader, bind, StateT.bind, unpackU16_toBytes, unpackU64_toBytes,
    unpackU64_append p.length_asyncPart, Option.bind_some]
  rfl

/-- A packet as it ought to be sent passes the check of its signature. -/
theorem checkSignature_stamped :
    checkSignature prim crypto (p.stamped prim crypto tag sequence) = true := by
  obtain ⟨asyncId, body, h⟩ := unpackHeader_stamped prim crypto tag sequence p
  have htype := getType_of_unpackHeader h UInt16.not_not
  have hlen := p.length_stamped prim crypto tag sequence
  simp only [checkSignature, htype]
  by_cases hsigned : isSigned p.type.code = true
  · have hroom := p.framed.room hsigned
    have hlength : signatureLength p.type = signatureSize := if_pos hsigned
    have hright : SignedUnder prim crypto (p.stamped prim crypto tag sequence) := by
      rw [SignedUnder, signedPart, hlen, ← hlength, stamped,
        drop_image (length_toBytes _ _) (length_toBytes _ _),
        take_image (length_toBytes _ _) (length_toBytes _ _), signaturePart, if_pos hsigned]
    simp [hsigned, hlen, hroom, hright]
  · simp [hsigned]

end Stamped

end PackedPacket

/-! ## The queue -/

/-- A packet in the queue. The sends move the buffer on and shorten the packet. -/
structure OutPacket where
  packed : PackedPacket
  base : List UInt8
  /-- Where the buffer starts, from the base. -/
  buffer : Nat
  length : Nat
  prepared : Bool
  deriving DecidableEq

def OutPacket.alloc (p : PackedPacket) : OutPacket :=
  ⟨p, p.bytes, 0, p.bytes.length, false⟩

/-- The next bytes that are left to be sent. -/
def OutPacket.data (packet : OutPacket) (count : Nat) : List UInt8 :=
  (packet.base.drop packet.buffer).take count

/-- So many bytes more were sent. -/
def OutPacket.advance (packet : OutPacket) (count : Nat) : OutPacket :=
  { packet with buffer := packet.buffer + count, length := packet.length - count }

section Prep

variable (prim : Primitives) (crypto : Crypto) (tag : UInt64)

/-- Insert the sequence number and the tag, and sign what the length says there is. -/
def prepPacket (packet : OutPacket) (sequence : UInt64) : Option (OutPacket × UInt64) :=
  if packet.prepared then some (packet, sequence)
  else
    let base := writeAt packet.base sequenceOffset (toBytes 8 sequence.toNat)
    let base := writeAt base tagOffset (toBytes 8 tag.toNat)
    let packet := { packet with prepared := true, buffer := 0, base := base }
    if isSigned packet.packed.type.code then
      if packet.length < signatureSize then none
      else
        let area := packet.length - signatureSize
        some ({ packet with base := writeAt base area (signature prim crypto (base.take area)) },
          sequence + 1)
    else some (packet, sequence + 1)

/-- Nothing of the packet was sent since it was last whole. -/
structure OutPacket.Whole (packet : OutPacket) : Prop where
  unprepared : packet.prepared = false
  length_eq : packet.length = packet.packed.bytes.length
  isImage : packet.packed.IsImage packet.base

/-- The packet is being sent: its buffer is what is left of it. -/
structure OutPacket.Sending (sequence : UInt64) (packet : OutPacket) : Prop where
  prepared : packet.prepared = true
  base_eq : packet.base = packet.packed.stamped prim crypto tag sequence
  length_eq : packet.buffer + packet.length = packet.packed.bytes.length
  length_pos : 0 < packet.length

theorem whole_alloc (p : PackedPacket) : (OutPacket.alloc p).Whole :=
  ⟨rfl, rfl, p.isImage_bytes⟩

variable {prim crypto tag}

/-- A whole packet is prepared as it is to be sent. -/
theorem prepPacket_of_whole {packet : OutPacket} (h : packet.Whole) (sequence : UInt64) :
    prepPacket prim crypto tag packet sequence =
      some ({ packet with
        prepared := true
        buffer := 0
        base := packet.packed.stamped prim crypto tag sequence }, sequence + 1) := by
  obtain ⟨hprepared, hlen, tag', sequence', sig, htag, hseq, hsig, hbase⟩ := h
  have hstamp : writeAt (writeAt packet.base sequenceOffset (toBytes 8 sequence.toNat)) tagOffset
      (toBytes 8 tag.toNat) =
      packet.packed.image (toBytes 8 tag.toNat) (toBytes 8 sequence.toNat) sig := by
    rw [hbase, PackedPacket.writeAt_image_sequence htag hseq (length_toBytes _ _),
      PackedPacket.writeAt_image_tag htag (length_toBytes _ _)]
  have hmin := PackedPacket.headerSize_add_le (p := packet.packed)
  simp only [prepPacket, hprepared, Bool.false_eq_true, if_false, hstamp, PackedPacket.stamped,
    PackedPacket.signaturePart]
  by_cases hsigned : isSigned packet.packed.type.code = true
  · have hlength : signatureLength packet.packed.type = signatureSize := if_pos hsigned
    have hroom : ¬packet.packed.bytes.length < signatureLength packet.packed.type := by omega
    have hsize (bytes : List UInt8) : (signature prim crypto bytes).length = sig.length := by
      rw [length_signature, hsig, hlength]
    simp only [hsigned, if_true, if_neg hroom, hlen, ← hlength,
      PackedPacket.take_image (length_toBytes _ _) (length_toBytes _ _),
      PackedPacket.writeAt_image_signature (length_toBytes _ _) (length_toBytes _ _) (hsize _)]
  · have hsize : sig.length = 0 := hsig.trans (if_neg hsigned)
    obtain rfl := List.length_eq_zero_iff.1 hsize
    simp only [hsigned, Bool.false_eq_true, if_false]

theorem OutPacket.Whole.deprep {packet : OutPacket} (h : packet.Whole) :
    OutPacket.Whole { packet with prepared := false } :=
  ⟨rfl, h.length_eq, h.isImage⟩

theorem OutPacket.Whole.sending {packet : OutPacket} (h : packet.Whole) (sequence : UInt64) :
    OutPacket.Sending prim crypto tag sequence { packet with
      prepared := true
      buffer := 0
      base := packet.packed.stamped prim crypto tag sequence } := by
  refine ⟨rfl, rfl, (Nat.zero_add _).trans h.length_eq, ?_⟩
  have : 30 ≤ packet.packed.bytes.length := packet.packed.framed.headerSize_le
  have := h.length_eq
  dsimp only
  omega

section Sending

variable {packet : OutPacket} {sequence : UInt64}
  (h : packet.Sending prim crypto tag sequence)
include h

theorem OutPacket.Sending.advance {n : Nat} (hlt : n < packet.length) :
    (packet.advance n).Sending prim crypto tag sequence := by
  refine ⟨h.prepared, h.base_eq, ?_, ?_⟩
  · have := h.length_eq
    simp only [OutPacket.advance]
    omega
  · simp only [OutPacket.advance]
    omega

/-- What was sent and what is left make up the packet. -/
theorem OutPacket.Sending.take_append_data :
    packet.base.take packet.buffer ++ packet.data packet.length =
      packet.packed.stamped prim crypto tag sequence := by
  have hlen := PackedPacket.length_stamped prim crypto tag sequence packet.packed
  rw [OutPacket.data, ← List.take_add, h.length_eq, h.base_eq, ← hlen, List.take_length]

theorem OutPacket.Sending.whole (hlen : packet.length = packet.packed.bytes.length) :
    OutPacket.Whole { packet with prepared := false } := by
  refine ⟨rfl, hlen, ?_⟩
  have := PackedPacket.isImage_stamped prim crypto tag sequence packet.packed
  rwa [← h.base_eq] at this

end Sending

end Prep

/-! ## The connection -/

/-- The connection that is or was last open. The code keeps no record of the packets that it
has sent. -/
structure Connection where
  tag : UInt64
  wire : List UInt8
  sent : List PackedPacket
  deriving DecidableEq

structure Io where
  stopNow : Bool
  readyToSend : Bool
  timeLimit : Nat
  outstanding : Outstanding
  queue : List OutPacket
  tag : UInt64
  outSequence : UInt64
  /-- The thread is between two sends. -/
  writing : Bool
  connection : Connection
  deriving DecidableEq

namespace Io

inductive Event where
  | queue (packet : PackedPacket) (now : Nat)
  | prequeue (packet : PackedPacket) (now : Nat)
  | writeOutput
  /-- The socket takes at most so many bytes, or none. -/
  | send (count : Nat)
  | stop
  | down
  /-- A new connection has a challenge, with this tag. -/
  | challenged (tag : UInt64)
  deriving DecidableEq

def create (timeLimit : Nat) : Io where
  stopNow := false
  readyToSend := false
  timeLimit := timeLimit
  outstanding := .empty
  queue := []
  tag := 0
  outSequence := 0
  writing := false
  connection := ⟨0, [], []⟩

/-- Put a packet in a slot and in the queue; a command that is late may lose its slot. -/
def pxdQueue (s : Io) (packet : PackedPacket) (now : Nat) (atHead : Bool) :
    Option (Io × Option Command) :=
  if s.stopNow then none
  else
    let command := ⟨packet.asyncId, packet.opOpaque, packet.type, now⟩
    (s.outstanding.add s.timeLimit now command).map fun (outstanding, killed) =>
      ({ s with
        outstanding := outstanding
        queue := if atHead then .alloc packet :: s.queue else s.queue ++ [.alloc packet] },
        killed)

def queuePacket (s : Io) (packet : PackedPacket) (now : Nat) : Option (Io × Option Command) :=
  s.pxdQueue packet now false

def prequeuePacket (s : Io) (packet : PackedPacket) (now : Nat) :
    Option (Io × Option Command) :=
  s.pxdQueue packet now true

/-- The socket takes the bytes. -/
def write (s : Io) (data : List UInt8) : Io :=
  { s with connection := { s.connection with wire := s.connection.wire ++ data } }

/-- Remove the packet at the head of the queue, of which everything was sent. -/
def advanceQueue (s : Io) (packet : OutPacket) (rest : List OutPacket) : Io :=
  { s with
    queue := rest
    connection := { s.connection with sent := s.connection.sent ++ [packet.packed] } }

section Write

variable (prim : Primitives) (crypto : Crypto)

/-- Get ready to write, if there is something to send. -/
def writeOutput (s : Io) : Option Io :=
  match s.queue with
  | [] => some s
  | packet :: rest =>
    if !s.readyToSend then some s
    else
      (prepPacket prim crypto s.tag packet s.outSequence).map fun (packet, sequence) =>
        { s with queue := packet :: rest, outSequence := sequence, writing := true }

/-- One turn of the loop that writes. -/
def send (s : Io) (count : Nat) : Option Io :=
  match s.queue with
  | [] => none
  | packet :: rest =>
    let count := min count packet.length
    if count = 0 then some { s with writing := false }
    else
      let s := { s.write (packet.data count) with queue := packet.advance count :: rest }
      if (packet.advance count).length ≠ 0 then some s
      else
        let s := s.advanceQueue packet rest
        match rest with
        | [] => some { s with writing := false }
        | next :: rest =>
          (prepPacket prim crypto s.tag { next with prepared := false } s.outSequence).map
            fun (next, sequence) => { s with queue := next :: rest, outSequence := sequence }

/-- All packets need new numbers. What was sent of the one at the head is forgotten, but not
that it is shorter by this. -/
def declareDown (s : Io) : Io :=
  { s with
    queue := s.queue.map fun packet => { packet with prepared := false }
    outstanding := s.outstanding.killAll.1
    tag := 0
    outSequence := 0
    readyToSend := false }

/-- The challenge of a new connection was read. -/
def challenged (s : Io) (tag : UInt64) : Io :=
  { s with tag := tag, readyToSend := true, connection := ⟨tag, [], []⟩ }

/-- Only packets at the end of the queue come from other threads. -/
def step (s : Io) : Event → Option Io
  | .queue packet now => (s.queuePacket packet now).map Prod.fst
  | .prequeue packet now =>
    if s.writing then none else (s.prequeuePacket packet now).map Prod.fst
  | .writeOutput => if s.writing then none else s.writeOutput prim crypto
  | .send count => if s.writing then s.send prim crypto count else none
  | .stop => some { s with stopNow := true }
  | .down => if s.writing then none else some s.declareDown
  | .challenged tag => if s.writing ∨ s.readyToSend then none else some (s.challenged tag)

end Write

/-! ## What a step does -/

section Steps

variable (prim : Primitives) (crypto : Crypto)

/-- What a turn of the loop comes to: the socket refuses, takes a part of what is left of the
packet, or takes all of it, so that the next one is prepared if there is one. -/
inductive Sent (s : Io) : Io → Prop where
  | refused : Sent s { s with writing := false }
  | part {packet : OutPacket} {rest : List OutPacket} {n : Nat}
      (hqueue : s.queue = packet :: rest) (hlt : n < packet.length) :
      Sent s { s.write (packet.data n) with queue := packet.advance n :: rest }
  | last {packet : OutPacket} (hqueue : s.queue = [packet]) :
      Sent s
        { (s.write (packet.data packet.length)).advanceQueue packet [] with writing := false }
  | next {packet next prepared : OutPacket} {rest : List OutPacket} {sequence : UInt64}
      (hqueue : s.queue = packet :: next :: rest)
      (hprep : prepPacket prim crypto s.tag { next with prepared := false } s.outSequence =
        some (prepared, sequence)) :
      Sent s
        { (s.write (packet.data packet.length)).advanceQueue packet (next :: rest) with
          queue := prepared :: rest
          outSequence := sequence }

/-- What a step comes to. -/
inductive Steps (s : Io) : Event → Io → Prop where
  | queue {packet : PackedPacket} {now : Nat} (outstanding : Outstanding) :
      Steps s (.queue packet now)
        { s with outstanding := outstanding, queue := s.queue ++ [.alloc packet] }
  | prequeue {packet : PackedPacket} {now : Nat} (outstanding : Outstanding)
      (hwriting : s.writing = false) :
      Steps s (.prequeue packet now)
        { s with outstanding := outstanding, queue := .alloc packet :: s.queue }
  | nothing : Steps s .writeOutput s
  | writes {packet prepared : OutPacket} {rest : List OutPacket} {sequence : UInt64}
      (hqueue : s.queue = packet :: rest) (hready : s.readyToSend = true)
      (hprep : prepPacket prim crypto s.tag packet s.outSequence = some (prepared, sequence)) :
      Steps s .writeOutput
        { s with queue := prepared :: rest, outSequence := sequence, writing := true }
  | send {count : Nat} {t : Io} (hwriting : s.writing = true) (h : Sent prim crypto s t) :
      Steps s (.send count) t
  | stop : Steps s .stop { s with stopNow := true }
  | down (hwriting : s.writing = false) : Steps s .down s.declareDown
  | challenged {tag : UInt64} (hwriting : s.writing = false) (hready : s.readyToSend = false) :
      Steps s (.challenged tag) (s.challenged tag)

variable {prim crypto} {s t : Io}

theorem sent_of_send {count : Nat} (h : s.send prim crypto count = some t) :
    Sent prim crypto s t := by
  unfold send at h
  split at h
  · cases h
  rename_i packet rest hqueue
  dsimp only at h
  split at h
  · cases h
    exact .refused
  split at h
  · rename_i hcount hlength
    cases h
    refine .part hqueue ?_
    simp only [OutPacket.advance] at hlength
    omega
  · rename_i hcount hlength
    have hall : min count packet.length = packet.length := by
      simp only [OutPacket.advance, ne_eq, Decidable.not_not] at hlength
      omega
    rw [hall] at h
    split at h
    · cases h
      exact .last hqueue
    · obtain ⟨⟨prepared, sequence⟩, hprep, rfl⟩ := Option.map_eq_some_iff.1 h
      exact .next hqueue hprep

theorem pxdQueue_eq {packet : PackedPacket} {now : Nat} {atHead : Bool}
    (h : (s.pxdQueue packet now atHead).map Prod.fst = some t) :
    ∃ outstanding, t = { s with
      outstanding := outstanding
      queue := if atHead then .alloc packet :: s.queue else s.queue ++ [.alloc packet] } := by
  obtain ⟨⟨t, killed⟩, hqueue, rfl⟩ := Option.map_eq_some_iff.1 h
  rw [pxdQueue] at hqueue
  split at hqueue
  · cases hqueue
  · obtain ⟨⟨outstanding, _⟩, -, hqueue⟩ := Option.map_eq_some_iff.1 hqueue
    obtain ⟨rfl, -⟩ := Prod.mk.inj hqueue
    exact ⟨outstanding, rfl⟩

theorem steps_writeOutput (h : s.writeOutput prim crypto = some t) :
    Steps prim crypto s .writeOutput t := by
  unfold writeOutput at h
  split at h
  · cases h
    exact .nothing
  rename_i packet rest hqueue
  split at h
  · cases h
    exact .nothing
  · rename_i hready
    obtain ⟨⟨prepared, sequence⟩, hprep, rfl⟩ := Option.map_eq_some_iff.1 h
    exact .writes hqueue (by simpa using hready) hprep

theorem steps_of_step {e : Event} (h : s.step prim crypto e = some t) :
    Steps prim crypto s e t := by
  cases e with
  | queue packet now =>
    obtain ⟨outstanding, rfl⟩ := pxdQueue_eq h
    exact .queue outstanding
  | prequeue packet now =>
    obtain ⟨hwriting, h⟩ := Option.ite_none_left_eq_some.1 h
    obtain ⟨outstanding, rfl⟩ := pxdQueue_eq h
    exact .prequeue outstanding (by simpa using hwriting)
  | writeOutput =>
    obtain ⟨-, h⟩ := Option.ite_none_left_eq_some.1 h
    exact steps_writeOutput h
  | send count =>
    obtain ⟨hwriting, h⟩ := Option.ite_none_right_eq_some.1 h
    exact .send hwriting (sent_of_send h)
  | stop =>
    cases h
    exact .stop
  | down =>
    obtain ⟨hwriting, h⟩ := Option.ite_none_left_eq_some.1 h
    cases h
    exact .down (by simpa using hwriting)
  | challenged tag =>
    obtain ⟨hclosed, h⟩ := Option.ite_none_left_eq_some.1 h
    cases h
    rw [not_or, Bool.not_eq_true, Bool.not_eq_true] at hclosed
    exact .challenged hclosed.1 hclosed.2

end Steps

/-! ## The order of the packets -/

/-- The packets that were sent on the connection, and those that wait. -/
def line (s : Io) : List PackedPacket :=
  s.connection.sent ++ s.queue.map OutPacket.packed

/-- How the packets stand after an event: a packet goes to the end, or in front of those that
wait. -/
def lineAfter (s : Io) : Event → List PackedPacket
  | .queue packet _ => s.line ++ [packet]
  | .prequeue packet _ => s.connection.sent ++ packet :: s.queue.map OutPacket.packed
  | .challenged _ => s.queue.map OutPacket.packed
  | _ => s.line

section Line

variable {prim : Primitives} {crypto : Crypto} {s t : Io}

theorem packed_of_prepPacket {tag sequence sequence' : UInt64} {packet prepared : OutPacket}
    (h : prepPacket prim crypto tag packet sequence = some (prepared, sequence')) :
    prepared.packed = packet.packed := by
  rw [prepPacket] at h
  split at h
  · cases h
    rfl
  · dsimp only at h
    split at h
    · split at h
      · cases h
      · cases h
        rfl
    · cases h
      rfl

theorem line_sent (h : Sent prim crypto s t) : t.line = s.line := by
  cases h with
  | refused => rfl
  | part hqueue => simp [line, hqueue, write, OutPacket.advance]
  | last hqueue => simp [line, hqueue, write, advanceQueue]
  | next hqueue hprep =>
    have hpacked := packed_of_prepPacket hprep
    simp [line, hqueue, write, advanceQueue, hpacked]

theorem line_step {e : Event} (h : s.step prim crypto e = some t) : t.line = s.lineAfter e := by
  cases steps_of_step h with
  | queue => simp [line, lineAfter, OutPacket.alloc]
  | prequeue => simp [line, lineAfter, OutPacket.alloc]
  | nothing => rfl
  | writes hqueue _ hprep =>
    have hpacked := packed_of_prepPacket hprep
    simp [line, lineAfter, hqueue, hpacked]
  | send _ h => exact line_sent h
  | stop => rfl
  | down => simp [line, lineAfter, declareDown, Function.comp_def]
  | challenged => simp [line, lineAfter, Io.challenged]

end Line

/-! ## What is on the wire -/

section Wire

variable (prim : Primitives) (crypto : Crypto)

/-- The packets that were sent, each with its number. -/
def frames (s : Io) : List (List UInt8) :=
  s.connection.sent.mapIdx fun i p =>
    p.stamped prim crypto s.connection.tag (UInt64.ofNat i)

/-- The packet at the head of the queue, with the number that it should have. -/
def nextFrame (s : Io) : Option (List UInt8) :=
  s.queue.head?.map fun packet =>
    packet.packed.stamped prim crypto s.connection.tag (UInt64.ofNat s.connection.sent.length)

/-- The packets are not above the limit that a peer has. -/
def FitsIn (maxPacketSize : Nat) (s : Io) : Prop :=
  (∀ bytes ∈ s.frames prim crypto, bytes.length ≤ maxPacketSize) ∧
    ∀ bytes ∈ s.nextFrame prim crypto, bytes.length ≤ maxPacketSize

/-- The connection carries the packets that were sent and at most a part of the next, and so
a peer with room for them reads just these, however it does. -/
structure Intact (s : Io) : Prop where
  stream : IsStream (s.frames prim crypto) (s.nextFrame prim crypto) s.connection.wire
  read : ∀ maxPacketSize, s.FitsIn prim crypto maxPacketSize → ∀ socket n,
    Carries socket s.connection.wire →
      readMany (readPacket maxPacketSize) n socket = (s.frames prim crypto).take n

/-- Either nothing of the packets in the queue was sent, or just the one at the head is being
sent. -/
inductive WellWritten (s : Io) : Prop where
  | idle (hwriting : s.writing = false) (hqueue : ∀ packet ∈ s.queue, packet.Whole)
      (hwire : s.connection.wire = (s.frames prim crypto).flatten)
      (hsequence : s.outSequence =
        if s.readyToSend then UInt64.ofNat s.connection.sent.length else 0)
      (htag : s.readyToSend = true → s.tag = s.connection.tag)
  | sending {packet : OutPacket} {rest : List OutPacket} (hqueue : s.queue = packet :: rest)
      (hpacket : packet.Sending prim crypto s.tag (UInt64.ofNat s.connection.sent.length))
      (hrest : ∀ packet ∈ rest, packet.Whole)
      (hwire : s.connection.wire =
        (s.frames prim crypto).flatten ++ packet.base.take packet.buffer)
      (hsequence : s.outSequence = UInt64.ofNat s.connection.sent.length + 1)
      (hready : s.readyToSend = true) (htag : s.tag = s.connection.tag)

variable {prim crypto} {s t : Io}

theorem exists_framed_frames {bytes : List UInt8} (h : bytes ∈ s.frames prim crypto) :
    ∃ code, Framed code bytes := by
  obtain ⟨i, hi, rfl⟩ := List.mem_mapIdx.1 h
  exact ⟨_, PackedPacket.framed_stamped prim crypto _ _ _⟩

theorem exists_framed_nextFrame {bytes : List UInt8} (h : bytes ∈ s.nextFrame prim crypto) :
    ∃ code, Framed code bytes := by
  obtain ⟨packet, -, rfl⟩ := Option.map_eq_some_iff.1 h
  exact ⟨_, PackedPacket.framed_stamped prim crypto _ _ _⟩

theorem intact_of_isStream
    (h : IsStream (s.frames prim crypto) (s.nextFrame prim crypto) s.connection.wire) :
    s.Intact prim crypto where
  stream := h
  read _ hfits _ n hs := reads_readPacket.readMany_eq
    (fun _ hmem => ⟨exists_framed_frames hmem, hfits.1 _ hmem⟩)
    (fun _ hmem => ⟨exists_framed_nextFrame hmem, hfits.2 _ hmem⟩) h hs n

theorem WellWritten.intact (h : s.WellWritten prim crypto) : s.Intact prim crypto := by
  apply intact_of_isStream
  cases h with
  | idle _ _ hwire =>
    rw [hwire]
    exact isStream_flatten
  | @sending packet rest hqueue hpacket hrest hwire _ _ htag =>
    have hnext : s.nextFrame prim crypto = some packet.base := by
      rw [nextFrame, hqueue, List.head?_cons, Option.map_some, hpacket.base_eq, htag]
    rw [hwire, hnext]
    apply isStream_take
    have hlen := hpacket.length_eq
    have hpos := hpacket.length_pos
    rw [hpacket.base_eq, PackedPacket.length_stamped]
    omega

/-! ### Steps -/

/-- The packet at the head of the queue is as it was packed, where it is prepared again or
another is put in front of it. -/
def Pristine (s : Io) : Event → Prop
  | .prequeue _ _ => ∀ packet ∈ s.queue.head?, packet.prepared = false
  | .down => ∀ packet ∈ s.queue.head?, packet.length = packet.packed.bytes.length
  | _ => True

instance (s : Io) : ∀ e, Decidable (Pristine s e)
  | .prequeue _ _ => inferInstanceAs (Decidable (∀ packet ∈ s.queue.head?, _))
  | .down => inferInstanceAs (Decidable (∀ packet ∈ s.queue.head?, _))
  | .queue _ _ | .writeOutput | .send _ | .stop | .challenged _ => .isTrue trivial

/-- With all of a packet on the wire there is one whole packet more. -/
theorem flatten_frames_advanceQueue {packet : OutPacket}
    (hpacket : packet.Sending prim crypto s.tag (UInt64.ofNat s.connection.sent.length))
    (hwire : s.connection.wire =
      (s.frames prim crypto).flatten ++ packet.base.take packet.buffer)
    (htag : s.tag = s.connection.tag) (rest : List OutPacket) :
    s.connection.wire ++ packet.data packet.length =
      (((s.write (packet.data packet.length)).advanceQueue packet rest).frames
        prim crypto).flatten := by
  have hlast := hpacket.take_append_data
  rw [htag] at hlast
  simp only [frames, advanceQueue, write, List.mapIdx_concat, List.flatten_append,
    List.flatten_singleton]
  rw [hwire, List.append_assoc, hlast, frames]

theorem ofNat_length_concat {p : PackedPacket} {sent : List PackedPacket} :
    UInt64.ofNat (sent ++ [p]).length = UInt64.ofNat sent.length + 1 := by
  rw [List.length_append, List.length_singleton, UInt64.ofNat_add]
  rfl

theorem wellWritten_create (timeLimit : Nat) : (create timeLimit).WellWritten prim crypto :=
  .idle rfl (by simp [create]) rfl rfl (by simp [create])

theorem WellWritten.sent (hs : s.WellWritten prim crypto) (hwriting : s.writing = true)
    (h : Sent prim crypto s t) : t.WellWritten prim crypto := by
  cases hs with
  | idle hidle =>
    rw [hidle] at hwriting
    cases hwriting
  | @sending packet rest hqueue hpacket hrest hwire hsequence hready htag =>
    cases h with
    | refused => exact .sending hqueue hpacket hrest hwire hsequence hready htag
    | part hqueue' hlt =>
      obtain ⟨rfl, rfl⟩ := List.cons.inj (hqueue.symm.trans hqueue')
      refine .sending rfl (hpacket.advance hlt) hrest ?_ hsequence hready htag
      simp only [write, hwire, List.append_assoc, OutPacket.advance, OutPacket.data, List.take_add]
      rfl
    | last hqueue' =>
      obtain ⟨rfl, rfl⟩ := List.cons.inj (hqueue.symm.trans hqueue')
      refine .idle rfl (by simp [advanceQueue]) ?_ ?_ fun _ => htag
      · exact flatten_frames_advanceQueue hpacket hwire htag []
      · simp only [advanceQueue, write, hready, if_true, ofNat_length_concat, hsequence]
    | @next _ next _ rest _ hqueue' hprep =>
      obtain ⟨rfl, rfl⟩ := List.cons.inj (hqueue.symm.trans hqueue')
      rw [List.forall_mem_cons] at hrest
      have hnext := hrest.1.deprep
      rw [prepPacket_of_whole hnext] at hprep
      obtain ⟨rfl, rfl⟩ := Prod.mk.inj (Option.some.inj hprep)
      refine .sending rfl ?_ hrest.2 ?_ ?_ hready htag
      · simpa only [advanceQueue, write, ofNat_length_concat, hsequence] using
          hnext.sending (s.outSequence)
      · rw [List.take_zero, List.append_nil]
        exact flatten_frames_advanceQueue hpacket hwire htag (next :: rest)
      · simp only [advanceQueue, write, ofNat_length_concat, hsequence]

theorem WellWritten.declareDown (hs : s.WellWritten prim crypto) (hwriting : s.writing = false)
    (hc : s.Pristine .down) : s.declareDown.WellWritten prim crypto := by
  cases hs with
  | idle _ hqueue hwire _ _ =>
    refine .idle hwriting ?_ hwire rfl (by simp [Io.declareDown])
    intro packet hpacket
    obtain ⟨packet, hmem, rfl⟩ := List.mem_map.1 hpacket
    exact (hqueue packet hmem).deprep
  | @sending packet rest hqueue hpacket hrest hwire _ _ _ =>
    have hlen := hc packet (by simp [hqueue])
    have hbuffer : packet.buffer = 0 := by
      have := hpacket.length_eq
      omega
    rw [hbuffer, List.take_zero, List.append_nil] at hwire
    refine .idle hwriting ?_ hwire rfl (by simp [Io.declareDown])
    intro packet' hpacket'
    obtain ⟨packet', hmem, rfl⟩ := List.mem_map.1 hpacket'
    rw [hqueue] at hmem
    obtain rfl | hmem := List.mem_cons.1 hmem
    · exact hpacket.whole hlen
    · exact (hrest packet' hmem).deprep

theorem WellWritten.step {e : Event} (hs : s.WellWritten prim crypto) (hc : s.Pristine e)
    (h : s.step prim crypto e = some t) : t.WellWritten prim crypto := by
  cases steps_of_step h with
  | @queue packet now outstanding =>
    cases hs with
    | idle hwriting hqueue hwire hsequence htag =>
      refine .idle hwriting ?_ hwire hsequence htag
      simpa [or_imp, forall_and] using ⟨hqueue, whole_alloc packet⟩
    | @sending head rest hqueue hpacket hrest hwire hsequence hready htag =>
      have hqueue' : s.queue ++ [.alloc packet] = head :: (rest ++ [.alloc packet]) := by
        rw [hqueue, List.cons_append]
      refine .sending hqueue' hpacket ?_ hwire hsequence hready htag
      simpa [or_imp, forall_and] using ⟨hrest, whole_alloc packet⟩
  | @prequeue packet now outstanding =>
    cases hs with
    | idle hwriting hqueue hwire hsequence htag =>
      refine .idle hwriting ?_ hwire hsequence htag
      simpa using ⟨whole_alloc packet, hqueue⟩
    | @sending head _ hqueue hpacket =>
      have hhead : head.prepared = false := hc head (by simp [hqueue])
      rw [hpacket.prepared] at hhead
      cases hhead
  | nothing => exact hs
  | writes hqueue hready hprep =>
    cases hs with
    | idle hwriting hwhole hwire hsequence htag =>
      rw [hqueue, List.forall_mem_cons] at hwhole
      rw [hready, if_pos rfl] at hsequence
      rw [prepPacket_of_whole hwhole.1] at hprep
      obtain ⟨rfl, rfl⟩ := Prod.mk.inj (Option.some.inj hprep)
      refine .sending rfl ?_ hwhole.2 ?_ (by rw [hsequence]) hready (htag hready)
      · simpa only [hsequence] using hwhole.1.sending s.outSequence
      · rw [List.take_zero, List.append_nil]
        exact hwire
    | sending hqueue' hpacket hrest hwire hsequence hready htag =>
      obtain ⟨rfl, rfl⟩ := List.cons.inj (hqueue.symm.trans hqueue')
      rw [prepPacket, if_pos hpacket.prepared] at hprep
      obtain ⟨rfl, rfl⟩ := Prod.mk.inj (Option.some.inj hprep)
      exact .sending rfl hpacket hrest hwire hsequence hready htag
  | send hwriting h => exact hs.sent hwriting h
  | stop =>
    cases hs with
    | idle hwriting hqueue hwire hsequence htag =>
      exact .idle hwriting hqueue hwire hsequence htag
    | sending hqueue hpacket hrest hwire hsequence hready htag =>
      exact .sending hqueue hpacket hrest hwire hsequence hready htag
  | down hwriting => exact hs.declareDown hwriting hc
  | challenged hwriting hready =>
    cases hs with
    | idle _ hqueue _ hsequence _ =>
      refine .idle hwriting hqueue (by simp [challenged, frames]) ?_ fun _ => rfl
      rw [hready] at hsequence
      simpa [challenged] using hsequence
    | sending _ _ _ _ _ hready' =>
      rw [hready] at hready'
      cases hready'

/-- No write goes before a buffer. -/
theorem WellWritten.isSome_send (hs : s.WellWritten prim crypto) (hwriting : s.writing = true)
    (count : Nat) : (s.send prim crypto count).isSome = true := by
  cases hs with
  | idle hidle =>
    rw [hidle] at hwriting
    cases hwriting
  | @sending packet rest hqueue _ hrest =>
    simp only [send, hqueue]
    split
    · rfl
    split
    · rfl
    cases rest with
    | nil => rfl
    | cons next rest =>
      have hnext := (hrest next (.head _)).deprep
      dsimp only
      rw [prepPacket_of_whole hnext]
      rfl

/-- As long as the packet at the head is as it was packed whenever the connection is lost, and
not prepared whenever another is put in front of it, the connections carry whole packets in
order, and at most a part of one. -/
theorem intact_of_meets {timeLimit : Nat} {tr : List (Io × Event)}
    (h : Run (step prim crypto) (create timeLimit) tr s) (hc : Meets Pristine tr) :
    Always (Intact prim crypto) tr s ∧ ∀ e t, s.step prim crypto e = some t →
      t.line = s.lineAfter e := by
  have hwell := h.always_of_meets (wellWritten_create timeLimit)
    (fun s e t hs hc h => hs.step hc h) hc
  refine ⟨⟨fun x hx => (hwell.1 x hx).intact, hwell.2.intact⟩, fun e t => line_step⟩

end Wire

/-! ### Two connections -/

def someLookup : PackedPacket :=
  (PackedPacket.ofUnpacked 8192
    { Unpacked.ofHeader queryServerDeclaration ⟨0, 0, queryServerDeclaration.code, 7, 2, 0⟩ with
      version := 1
      userId := 5
      deviceId := 6 } none).get (by decide +kernel)

def someLogin : PackedPacket :=
  (PackedPacket.ofUnpacked 8192
    { Unpacked.ofHeader sendPxdLogin ⟨0, 0, sendPxdLogin.code, 7, 1, 0⟩ with
      challenge := [8, 9]
      blob := [4, 5] } none).get (by decide +kernel)

/-- The first connection is lost after two packets, the second has been sent a part of one. -/
def wholePackets : List Event :=
  [.queue someLookup 0, .challenged 7, .prequeue someLogin 1, .writeOutput, .send 40, .send 100,
    .send 100, .down, .challenged 8, .prequeue someLogin 2, .writeOutput, .send 30, .send 0]

theorem intact_of_meets_wholePackets :
    ∃ tr s, Run (step zeroHash (createCrypto [1])) (create 6000000) tr s ∧ tr.length = 13 ∧
      Always (Intact zeroHash (createCrypto [1])) tr s := by
  have he : (exec (step zeroHash (createCrypto [1])) (create 6000000) wholePackets).isSome =
      true := by decide +kernel
  obtain ⟨s, hs⟩ := Option.isSome_iff_exists.1 he
  have hc : Meets Pristine
      (trace (step zeroHash (createCrypto [1])) (create 6000000) wholePackets).reverse := by
    decide +kernel
  exact ⟨_, s, run_trace hs, by
    simpa [wholePackets] using congrArg List.length (map_snd_trace hs),
    (intact_of_meets (run_trace hs) hc).1⟩

/-- The connection is lost when forty bytes of the lookup were sent. The next one gets the
other thirty-two, counted from its start. -/
def tornLookup : List Event :=
  [.challenged 7, .prequeue someLogin 1, .writeOutput, .send 100, .queue someLookup 2,
    .writeOutput, .send 40, .send 0, .down, .challenged 8, .prequeue someLogin 3, .writeOutput,
    .send 100, .send 100]

theorem not_intact_tornLookup :
    ∃ tr s, Run (step zeroHash (createCrypto [1])) (create 6000000) tr s ∧
      ¬Intact zeroHash (createCrypto [1]) s := by
  have he : (exec (step zeroHash (createCrypto [1])) (create 6000000) tornLookup).any
      (fun s => s.connection.wire.length < (s.frames zeroHash (createCrypto [1])).flatten.length) =
        true := by
    decide +kernel
  obtain ⟨s, hs, hlt⟩ := (Option.any_eq_true _ _).1 he
  refine ⟨_, s, run_trace hs, fun h => ?_⟩
  exact absurd h.stream.length_le (Nat.not_le.2 (of_decide_eq_true hlt))

end Io

end PersonalCloud.Pxd
