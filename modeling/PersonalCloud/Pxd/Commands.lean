import PersonalCloud.Pxd.Wire

/-!
# Outstanding commands

A client has twenty slots for the packets that it has queued and not yet seen a reply to. A
reply is matched with a slot by its operation id alone. A command whose time is up may be
pushed out of its slot by the next one.
-/

namespace PersonalCloud.Pxd

abbrev outstandingLimit : Nat := 20

structure Command where
  asyncId : UInt64
  /-- The caller's pointer. -/
  opOpaque : Option Nat
  type : PacketType
  start : Nat
  deriving DecidableEq, Repr

/-- The slots; one that is not valid is empty. -/
abbrev Outstanding := List (Option Command)

namespace Outstanding

def empty : Outstanding :=
  List.replicate outstandingLimit none

def isLate (timeLimit now : Nat) (command : Command) : Bool :=
  command.start + timeLimit < now

/-- Take the first slot that is free or late; in the latter case its command is killed. -/
def add (timeLimit now : Nat) (command : Command) : Outstanding →
    Option (Outstanding × Option Command)
  | [] => none
  | none :: slots => some (some command :: slots, none)
  | some c :: slots =>
    if isLate timeLimit now c then some (some command :: slots, some c)
    else (add timeLimit now command slots).map fun (slots, killed) => (some c :: slots, killed)

/-- The first command with the operation id, and its slot freed. -/
def find (asyncId : UInt64) : Outstanding → Option (Command × Outstanding)
  | [] => none
  | none :: slots => (find asyncId slots).map fun (c, slots) => (c, none :: slots)
  | some c :: slots =>
    if c.asyncId = asyncId then some (c, none :: slots)
    else (find asyncId slots).map fun (d, slots) => (d, some c :: slots)

/-- Free the slots that are late, and give their commands. -/
def checkTimeout (timeLimit now : Nat) (slots : Outstanding) : Outstanding × List Command :=
  (slots.map fun slot => slot.filter fun c => !isLate timeLimit now c,
    slots.reduceOption.filter (isLate timeLimit now))

/-- Free all slots, and give their commands. -/
def killAll (slots : Outstanding) : Outstanding × List Command :=
  (slots.map fun _ => none, slots.reduceOption)

variable {timeLimit now : Nat} {command : Command}

/-- There is room for a command when a slot is free. -/
theorem isSome_add {slots : Outstanding} (h : none ∈ slots) :
    (add timeLimit now command slots).isSome = true := by
  induction slots with
  | nil => cases h
  | cons slot slots ih =>
    cases slot with
    | none => rfl
    | some c =>
      rw [add]
      split
      · rfl
      · simpa using ih (by simpa using h)

/-- A reply frees a slot. -/
theorem none_mem_of_find {asyncId : UInt64} {slots slots' : Outstanding} {c : Command}
    (h : find asyncId slots = some (c, slots')) : none ∈ slots' := by
  induction slots generalizing slots' with
  | nil => cases h
  | cons slot slots ih =>
    cases slot with
    | none =>
      obtain ⟨⟨d, rest⟩, -, hd⟩ := Option.map_eq_some_iff.1 h
      obtain ⟨-, rfl⟩ := Prod.mk.inj hd
      exact .head _
    | some c' =>
      rw [find] at h
      split at h
      · obtain ⟨-, rfl⟩ := Prod.mk.inj (Option.some.inj h)
        exact .head _
      · obtain ⟨⟨d, rest⟩, hrest, hd⟩ := Option.map_eq_some_iff.1 h
        obtain ⟨rfl, rfl⟩ := Prod.mk.inj hd
        exact .tail _ (ih hrest)

theorem mem_of_add {slots slots' : Outstanding} {killed : Option Command} {c : Command}
    (h : add timeLimit now command slots = some (slots', killed)) (hc : some c ∈ slots') :
    some c ∈ slots ∨ c = command := by
  induction slots generalizing slots' killed with
  | nil => cases h
  | cons slot slots ih =>
    cases slot with
    | none =>
      obtain ⟨rfl, -⟩ := Prod.mk.inj (Option.some.inj h)
      obtain hc | hc := List.mem_cons.1 hc
      · exact .inr (Option.some.inj hc)
      · exact .inl (.tail _ hc)
    | some d =>
      rw [add] at h
      split at h
      · obtain ⟨rfl, -⟩ := Prod.mk.inj (Option.some.inj h)
        obtain hc | hc := List.mem_cons.1 hc
        · exact .inr (Option.some.inj hc)
        · exact .inl (.tail _ hc)
      · obtain ⟨⟨rest, _⟩, hrest, hd⟩ := Option.map_eq_some_iff.1 h
        obtain ⟨rfl, -⟩ := Prod.mk.inj hd
        obtain hc | hc := List.mem_cons.1 hc
        · exact .inl (hc ▸ .head _)
        · exact (ih hrest hc).imp_left (.tail _)

theorem mem_of_find {asyncId : UInt64} {slots slots' : Outstanding} {c d : Command}
    (h : find asyncId slots = some (c, slots')) (hd : some d ∈ slots') : some d ∈ slots := by
  induction slots generalizing slots' with
  | nil => cases h
  | cons slot slots ih =>
    cases slot with
    | none =>
      obtain ⟨⟨e, rest⟩, hrest, he⟩ := Option.map_eq_some_iff.1 h
      obtain ⟨rfl, rfl⟩ := Prod.mk.inj he
      obtain hd | hd := List.mem_cons.1 hd
      · cases hd
      · exact .tail _ (ih hrest hd)
    | some c' =>
      rw [find] at h
      split at h
      · obtain ⟨rfl, rfl⟩ := Prod.mk.inj (Option.some.inj h)
        obtain hd | hd := List.mem_cons.1 hd
        · cases hd
        · exact .tail _ hd
      · obtain ⟨⟨e, rest⟩, hrest, he⟩ := Option.map_eq_some_iff.1 h
        obtain ⟨rfl, rfl⟩ := Prod.mk.inj he
        obtain hd | hd := List.mem_cons.1 hd
        · exact hd ▸ .head _
        · exact .tail _ (ih hrest hd)

theorem mem_of_checkTimeout {slots : Outstanding} {c : Command}
    (h : some c ∈ (checkTimeout timeLimit now slots).1) : some c ∈ slots := by
  obtain ⟨slot, hslot, h⟩ := List.mem_map.1 h
  obtain ⟨rfl, -⟩ := Option.filter_eq_some_iff.1 h
  exact hslot

theorem not_mem_killAll {slots : Outstanding} {c : Command} : some c ∉ (killAll slots).1 := by
  simp [killAll]

theorem asyncId_of_find {asyncId : UInt64} {slots slots' : Outstanding} {c : Command}
    (h : find asyncId slots = some (c, slots')) : some c ∈ slots ∧ c.asyncId = asyncId := by
  induction slots generalizing slots' with
  | nil => cases h
  | cons slot slots ih =>
    cases slot with
    | none =>
      obtain ⟨⟨d, rest⟩, hrest, hd⟩ := Option.map_eq_some_iff.1 h
      obtain ⟨rfl, -⟩ := Prod.mk.inj hd
      exact (ih hrest).imp_left (.tail _)
    | some c' =>
      rw [find] at h
      split at h
      · rename_i hid
        obtain ⟨rfl, -⟩ := Prod.mk.inj (Option.some.inj h)
        exact ⟨.head _, hid⟩
      · obtain ⟨⟨d, rest⟩, hrest, hd⟩ := Option.map_eq_some_iff.1 h
        obtain ⟨rfl, -⟩ := Prod.mk.inj hd
        exact (ih hrest).imp_left (.tail _)

end Outstanding

end PersonalCloud.Pxd
