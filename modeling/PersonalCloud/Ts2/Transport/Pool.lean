import Mathlib.Logic.Function.Basic
import PersonalCloud.Lib.OrdMap
import PersonalCloud.Ts2.Transport.TunnelState

/-!
# The pool of tunnels

The pool gives each tunnel its local id and finds it again, by that id or, on the server, by
the client and the number of the SYN that asked for it. `object` stands for the address of a
tunnel, which no other tunnel has; ids come from a 32-bit counter and may be used again.
-/

namespace PersonalCloud.Ts2.Transport

open PersonalCloud.Lib

/-- What a SYN is known by. -/
structure DstInfo where
  deviceId : Nat
  instId : Nat
  vtId : Nat
  seqNum : Nat
  deriving DecidableEq, Repr

structure Vtunnel where
  object : Nat
  dst : DstInfo
  lclVtId : Nat
  deriving DecidableEq, Repr

structure Pool where
  started : Bool
  vtunnelMap : OrdMap Nat Vtunnel
  vtIdMap : DstInfo → Option Nat
  idCounter : Nat

namespace Pool

def opened (idCounter : Nat) : Pool where
  started := true
  vtunnelMap := .empty
  vtIdMap := fun _ => none
  idCounter := idCounter

/-- Look for a free id, and the counter after that. -/
def assignId (m : OrdMap Nat Vtunnel) : Nat → Nat → Option Nat × Nat
  | 0, counter => (none, counter)
  | tries + 1, counter =>
    let vtId := (counter + 1) % 2 ^ 32
    -- zero is not a valid id
    if vtId = 0 then assignId m tries vtId
    else if (m.find? vtId).isNone then (some vtId, vtId)
    else assignId m tries vtId

/-- The tunnel with its id, or why it was not added. -/
def vtunnelAdd (p : Pool) (authorized : Bool) (vt : Vtunnel) : Except TSError Vtunnel × Pool :=
  if !p.started then (.error .wrongState, p)
  else if !authorized then (.error .invalidDevice, p)
  else
    match assignId p.vtunnelMap 10 p.idCounter with
    | (none, counter) => (.error .invalid, { p with idCounter := counter })
    | (some vtId, counter) =>
      let vt := { vt with lclVtId := vtId }
      (.ok vt,
        { p with
          vtunnelMap := p.vtunnelMap.insert vtId vt
          vtIdMap :=
            if vt.dst.seqNum ≠ 0 then Function.update p.vtIdMap vt.dst (some vtId) else p.vtIdMap
          idCounter := counter })

def vtunnelFind (p : Pool) (dst : DstInfo) : Option Vtunnel :=
  if dst.seqNum = 0 then none else (p.vtIdMap dst).bind p.vtunnelMap.find?

def vtunnelRemove (p : Pool) (vtId : Nat) : Pool :=
  match p.vtunnelMap.find? vtId with
  | none => p
  | some vt =>
    { p with
      vtunnelMap := p.vtunnelMap.erase vtId
      vtIdMap := if vt.dst.seqNum ≠ 0 then Function.update p.vtIdMap vt.dst none else p.vtIdMap }

variable {p : Pool} {vt v : Vtunnel} {vtId : Nat}

theorem exists_of_vtunnelFind {dst : DstInfo} (h : p.vtunnelFind dst = some vt) :
    ∃ vtId, p.vtunnelMap.find? vtId = some vt := by
  unfold vtunnelFind at h
  split at h
  · cases h
  · obtain ⟨vtId, -, h⟩ := Option.bind_eq_some_iff.1 h
    exact ⟨vtId, h⟩

/-- The tunnel added is the one given, and the others stay. -/
theorem of_vtunnelAdd {authorized : Bool} {new : Vtunnel} {p' : Pool}
    (h : p.vtunnelAdd authorized new = (.ok vt, p')) :
    vt.object = new.object ∧
      ∀ vtId v, p'.vtunnelMap.find? vtId = some v → v = vt ∨ p.vtunnelMap.find? vtId = some v := by
  unfold vtunnelAdd at h
  split at h
  · cases h
  split at h
  · cases h
  split at h
  · cases h
  · obtain ⟨hvt, rfl⟩ := Prod.mk.inj h
    obtain rfl := Except.ok.inj hvt
    refine ⟨rfl, fun i v hv => ?_⟩
    simp only [OrdMap.find?_insert] at hv
    split at hv
    · exact .inl (Option.some.inj hv).symm
    · exact .inr hv

theorem vtunnelMap_of_error {authorized : Bool} {new : Vtunnel} {p' : Pool} {err : TSError}
    (h : p.vtunnelAdd authorized new = (.error err, p')) : p'.vtunnelMap = p.vtunnelMap := by
  unfold vtunnelAdd at h
  split at h
  · obtain ⟨-, rfl⟩ := Prod.mk.inj h
    rfl
  split at h
  · obtain ⟨-, rfl⟩ := Prod.mk.inj h
    rfl
  split at h
  · obtain ⟨-, rfl⟩ := Prod.mk.inj h
    rfl
  · cases h

theorem find?_of_vtunnelRemove {i : Nat} (h : (p.vtunnelRemove vtId).vtunnelMap.find? i = some v) :
    p.vtunnelMap.find? i = some v := by
  unfold vtunnelRemove at h
  split at h
  · exact h
  · simp only [OrdMap.find?_erase] at h
    split at h
    · cases h
    · exact h

end Pool

end PersonalCloud.Ts2.Transport
