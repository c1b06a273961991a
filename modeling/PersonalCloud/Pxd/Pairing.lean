import Mathlib.Data.List.Nodup
import Mathlib.Data.List.ReduceOption
import PersonalCloud.Pxd.Client

/-!
# Replies and the commands they belong to

The threads of the application put their commands in the slots, under the lock. The thread of
the client looks for the slot of a packet that it has read: it tests the slots one by one
without the lock, and takes it only to copy the command that it has found. A command that was
pushed out of its slot is killed by the thread that did so, after the lock was released. What
the thread of the client takes out of the slots, because it is late or because the connection
was lost, it kills one by one.

## Main results

* `run_find` — when nothing comes in between, the steps find what `Outstanding.find` finds.
* `paired_of_meets` — every lookup is completed exactly once; a reply completes the command
  with its operation id unless that was pushed out of its slot between the test and the copy.
-/

namespace PersonalCloud.Pxd

open PersonalCloud.Lib PacketType

/-! ## Slots -/

namespace Outstanding

/-- The slot that the next command gets. -/
def firstFree (timeLimit now : Nat) (slots : Outstanding) : Option Nat :=
  slots.findIdx? fun slot => slot.all (isLate timeLimit now)

variable {timeLimit now : Nat} {command : Command}

theorem add_eq_some {slots slots' : Outstanding} {killed : Option Command}
    (h : add timeLimit now command slots = some (slots', killed)) :
    ∃ i, firstFree timeLimit now slots = some i ∧ slots[i]? = some killed ∧
      slots' = slots.set i (some command) := by
  induction slots generalizing slots' killed with
  | nil => cases h
  | cons slot slots ih =>
    cases slot with
    | none =>
      obtain ⟨rfl, rfl⟩ := Prod.mk.inj (Option.some.inj h)
      exact ⟨0, rfl, rfl, rfl⟩
    | some c =>
      rw [add] at h
      split at h
      · rename_i hlate
        obtain ⟨rfl, rfl⟩ := Prod.mk.inj (Option.some.inj h)
        refine ⟨0, ?_, rfl, rfl⟩
        simp [firstFree, List.findIdx?_cons, hlate]
      · rename_i hlate
        obtain ⟨⟨rest, _⟩, hrest, heq⟩ := Option.map_eq_some_iff.1 h
        obtain ⟨rfl, rfl⟩ := Prod.mk.inj heq
        obtain ⟨i, hi, hget, rfl⟩ := ih hrest
        refine ⟨i + 1, ?_, by simpa using hget, rfl⟩
        simp only [firstFree] at hi
        simp [firstFree, List.findIdx?_cons, hlate, hi]

theorem find_cons_of_any_eq_false {asyncId : UInt64} {slot : Option Command}
    {slots : Outstanding} (h : slot.any (fun c => c.asyncId = asyncId) = false) :
    find asyncId (slot :: slots) = (find asyncId slots).map fun (c, slots) => (c, slot :: slots) := by
  cases slot with
  | none => rfl
  | some c =>
    rw [find, if_neg (of_decide_eq_false h)]

theorem reduceOption_cons (slot : Option Command) (slots : Outstanding) :
    List.reduceOption (slot :: slots) = slot.toList ++ slots.reduceOption := by
  cases slot <;> rfl

/-- Changing a slot exchanges one command for another. -/
theorem perm_set {slots : Outstanding} {i : Nat} {old : Option Command}
    (h : slots[i]? = some old) (new : Option Command) :
    (old.toList ++ (slots.set i new).reduceOption).Perm
      (new.toList ++ slots.reduceOption) := by
  induction slots generalizing i with
  | nil => cases h
  | cons slot slots ih =>
    cases i with
    | zero =>
      obtain rfl := Option.some.inj h
      rw [List.set_cons_zero, reduceOption_cons, reduceOption_cons]
      exact List.perm_append_comm_assoc ..
    | succ i =>
      rw [List.set_cons_succ, reduceOption_cons, reduceOption_cons]
      have hrest := (ih (by simpa using h)).append_left slot.toList
      exact (List.perm_append_comm_assoc ..).trans
        (hrest.trans (List.perm_append_comm_assoc ..))

theorem perm_checkTimeout (timeLimit now : Nat) (slots : Outstanding) :
    ((checkTimeout timeLimit now slots).2 ++ (checkTimeout timeLimit now slots).1.reduceOption).Perm
      slots.reduceOption := by
  induction slots with
  | nil => exact .nil
  | cons slot slots ih =>
    simp only [checkTimeout, List.map_cons, reduceOption_cons] at ih ⊢
    cases slot with
    | none => exact ih
    | some c =>
      by_cases hlate : isLate timeLimit now c = true
      · simpa [hlate, Option.filter_some] using ih
      · simpa [hlate, Option.filter_some] using List.perm_middle.trans (ih.cons c)

theorem reduceOption_killAll (slots : Outstanding) : (killAll slots).1.reduceOption = [] := by
  induction slots with
  | nil => rfl
  | cons slot slots ih => exact ih

theorem perm_killAll (slots : Outstanding) :
    ((killAll slots).2 ++ (killAll slots).1.reduceOption).Perm slots.reduceOption := by
  rw [reduceOption_killAll, List.append_nil]
  exact .refl _

end Outstanding

/-! ## Threads -/

/-- A call of `lookup_done`, with the packet that completes the lookup if there is one. -/
structure LookupDone where
  command : Command
  reply : Option Unpacked
  result : UInt64
  deriving DecidableEq, Repr

/-- What the thread of the client is about. -/
inductive Task where
  | idle
  /-- The slot is to be tested next. -/
  | testing (u : Unpacked) (slot : Nat)
  /-- The slot passed the test, and is to be copied under the lock. -/
  | matched (u : Unpacked) (slot : Nat)
  | replying (u : Unpacked) (command : Command)
  | killing (commands : List Command) (result : UInt64)
  deriving DecidableEq, Repr

/-- The commands that were taken out of the slots. -/
def Task.held : Task → List Command
  | replying _ command => [command]
  | killing commands _ => commands
  | _ => []

/-- The slot that passed the test and was not copied yet. -/
def Task.found : Task → Option Nat
  | matched _ slot => some slot
  | _ => none

structure Pairing where
  stopNow : Bool
  timeLimit : Nat
  outstanding : Outstanding
  task : Task
  /-- What threads of the application have pushed out of the slots and not yet killed. -/
  pushedOut : List Command
  /-- Everything that was ever queued. -/
  queued : List Command
  done : List LookupDone
  deriving DecidableEq, Repr

namespace Pairing

/-- What a thread does in one step. -/
inductive Step where
  | queue (command : Command)
  /-- A thread of the application kills what it has pushed out. -/
  | killPushedOut (command : Command)
  | receive (u : Unpacked)
  | test | copy | reply
  | checkTimeout (now : Nat)
  | killAll
  /-- The next command is killed, or there is none any more. -/
  | kill
  | stop
  deriving DecidableEq, Repr

def start (timeLimit : Nat) : Pairing :=
  ⟨false, timeLimit, .empty, .idle, [], [], []⟩

/-- Only lookups have a callback. -/
def complete (s : Pairing) (command : Command) (reply : Option Unpacked) (result : UInt64) :
    Pairing :=
  { s with
    done := if command.type = queryServerDeclaration then ⟨command, reply, result⟩ :: s.done
      else s.done }

def queue (s : Pairing) (command : Command) : Option Pairing :=
  if s.stopNow then none
  else
    (s.outstanding.add s.timeLimit command.start command).map fun (outstanding, killed) =>
      { s with
        outstanding := outstanding
        pushedOut := killed.toList ++ s.pushedOut
        queued := command :: s.queued }

def step (s : Pairing) : Step → Option Pairing
  | .queue command => s.queue command
  | .killPushedOut command =>
    if command ∈ s.pushedOut then
      some ({ s with pushedOut := s.pushedOut.erase command }.complete command none pxdTimedOut)
    else none
  | .receive u => if s.task = .idle then some { s with task := .testing u 0 } else none
  | .test =>
    match s.task with
    | .testing u i =>
      match s.outstanding[i]? with
      | none => some { s with task := .idle }
      | some slot =>
        some { s with
          task := if slot.any fun c => c.asyncId = u.asyncId then .matched u i
            else .testing u (i + 1) }
    | _ => none
  | .copy =>
    match s.task with
    | .matched u i =>
      match s.outstanding[i]? with
      | some (some c) =>
        some { s with task := .replying u c, outstanding := s.outstanding.set i none }
      | _ => none
    | _ => none
  | .reply =>
    match s.task with
    | .replying u c =>
      some ({ s with task := .idle }.complete c (some u) (Client.replyResult u))
    | _ => none
  | .checkTimeout now =>
    if s.task = .idle then
      let (outstanding, late) := s.outstanding.checkTimeout s.timeLimit now
      some { s with outstanding := outstanding, task := .killing late pxdTimedOut }
    else none
  | .killAll =>
    if s.task = .idle then
      let (outstanding, lost) := s.outstanding.killAll
      some { s with outstanding := outstanding, task := .killing lost pxdConnectionLost }
    else none
  | .kill =>
    match s.task with
    | .killing [] _ => some { s with task := .idle }
    | .killing (c :: cs) result =>
      some ({ s with task := .killing cs result }.complete c none result)
    | _ => none
  | .stop => some { s with stopNow := true }

/-- What a step does. -/
inductive Does (s : Pairing) : Step → Pairing → Prop where
  | queue {command : Command} {killed : Option Command} {i : Nat}
      (hfree : s.outstanding.firstFree s.timeLimit command.start = some i)
      (hget : s.outstanding[i]? = some killed) :
      Does s (.queue command) { s with
        outstanding := s.outstanding.set i (some command)
        pushedOut := killed.toList ++ s.pushedOut
        queued := command :: s.queued }
  | killPushedOut {command : Command} (hmem : command ∈ s.pushedOut) :
      Does s (.killPushedOut command)
        ({ s with pushedOut := s.pushedOut.erase command }.complete command none pxdTimedOut)
  | receive {u : Unpacked} (htask : s.task = .idle) :
      Does s (.receive u) { s with task := .testing u 0 }
  | tested {u : Unpacked} {i : Nat} {slot : Option Command} (htask : s.task = .testing u i)
      (hget : s.outstanding[i]? = some slot)
      (hother : slot.any (fun c => c.asyncId = u.asyncId) = false) :
      Does s .test { s with task := .testing u (i + 1) }
  | found {u : Unpacked} {i : Nat} {c : Command} (htask : s.task = .testing u i)
      (hget : s.outstanding[i]? = some (some c)) (hid : c.asyncId = u.asyncId) :
      Does s .test { s with task := .matched u i }
  | notFound {u : Unpacked} {i : Nat} (htask : s.task = .testing u i)
      (hend : s.outstanding.length ≤ i) : Does s .test { s with task := .idle }
  | copy {u : Unpacked} {i : Nat} {c : Command} (htask : s.task = .matched u i)
      (hget : s.outstanding[i]? = some (some c)) :
      Does s .copy { s with task := .replying u c, outstanding := s.outstanding.set i none }
  | reply {u : Unpacked} {c : Command} (htask : s.task = .replying u c) :
      Does s .reply ({ s with task := .idle }.complete c (some u) (Client.replyResult u))
  | checkTimeout {now : Nat} (htask : s.task = .idle) :
      Does s (.checkTimeout now) { s with
        outstanding := (s.outstanding.checkTimeout s.timeLimit now).1
        task := .killing (s.outstanding.checkTimeout s.timeLimit now).2 pxdTimedOut }
  | killAll (htask : s.task = .idle) :
      Does s .killAll { s with
        outstanding := s.outstanding.killAll.1
        task := .killing s.outstanding.killAll.2 pxdConnectionLost }
  | kill {c : Command} {cs : List Command} {result : UInt64}
      (htask : s.task = .killing (c :: cs) result) :
      Does s .kill ({ s with task := .killing cs result }.complete c none result)
  | killed {result : UInt64} (htask : s.task = .killing [] result) :
      Does s .kill { s with task := .idle }
  | stop : Does s .stop { s with stopNow := true }

theorem does_of_step {s t : Pairing} {e : Step} (h : s.step e = some t) : s.Does e t := by
  cases e with
  | queue command =>
    obtain ⟨-, h⟩ := Option.ite_none_left_eq_some.1 h
    obtain ⟨⟨outstanding, killed⟩, hadd, rfl⟩ := Option.map_eq_some_iff.1 h
    obtain ⟨i, hfree, hget, rfl⟩ := Outstanding.add_eq_some hadd
    exact .queue hfree hget
  | killPushedOut command =>
    obtain ⟨hmem, h⟩ := Option.ite_none_right_eq_some.1 h
    cases h
    exact .killPushedOut hmem
  | receive u =>
    obtain ⟨htask, h⟩ := Option.ite_none_right_eq_some.1 h
    cases h
    exact .receive htask
  | test =>
    rw [step] at h
    split at h
    · rename_i u i htask
      split at h
      · rename_i hend
        cases h
        exact .notFound htask (List.getElem?_eq_none_iff.1 hend)
      · rename_i slot hget
        cases h
        cases hany : slot.any fun c => c.asyncId = u.asyncId with
        | false => exact .tested htask hget hany
        | true =>
          obtain ⟨c, rfl, hid⟩ := (Option.any_eq_true _ _).1 hany
          exact .found htask hget (of_decide_eq_true hid)
    · cases h
  | copy =>
    rw [step] at h
    split at h
    · rename_i u i htask
      split at h
      · rename_i c hget
        cases h
        exact .copy htask hget
      · cases h
    · cases h
  | reply =>
    rw [step] at h
    split at h
    · rename_i u c htask
      cases h
      exact .reply htask
    · cases h
  | checkTimeout now =>
    obtain ⟨htask, h⟩ := Option.ite_none_right_eq_some.1 h
    cases h
    exact .checkTimeout htask
  | killAll =>
    obtain ⟨htask, h⟩ := Option.ite_none_right_eq_some.1 h
    cases h
    exact .killAll htask
  | kill =>
    rw [step] at h
    split at h
    · rename_i result htask
      cases h
      exact .killed htask
    · rename_i c cs result htask
      cases h
      exact .kill htask
    · cases h
  | stop =>
    cases h
    exact .stop

/-- Commands that were queued and of which no end was made yet. -/
def waiting (s : Pairing) : List Command :=
  s.pushedOut ++ (s.task.held ++ s.outstanding.reduceOption)

def lookups (commands : List Command) : List Command :=
  commands.filter fun c => c.type = queryServerDeclaration

/-- No lookup is lost and none is completed twice. -/
structure Accounted (s : Pairing) : Prop where
  perm : (s.done.map LookupDone.command ++ lookups s.waiting).Perm (lookups s.queued)
  matched : ∀ u i, s.task = .matched u i → ∃ c, s.outstanding[i]? = some (some c)

/-- Operation ids are not used again. -/
def FreshId (s : Pairing) : Step → Prop
  | .queue command => command.asyncId ∉ s.queued.map Command.asyncId
  | _ => True

/-- A slot that was found for a packet is not given to a lookup before it is copied. -/
def KeepsMatched (s : Pairing) : Step → Prop
  | .queue command => command.type = queryServerDeclaration → s.task.found.isSome →
      s.outstanding.firstFree s.timeLimit command.start ≠ s.task.found
  | _ => True

instance (s : Pairing) : (e : Step) → Decidable (s.FreshId e)
  | .queue command =>
    inferInstanceAs (Decidable (command.asyncId ∉ s.queued.map Command.asyncId))
  | .killPushedOut _ | .receive _ | .test | .copy | .reply | .checkTimeout _ | .killAll | .kill
  | .stop => inferInstanceAs (Decidable True)

instance (s : Pairing) : (e : Step) → Decidable (s.KeepsMatched e)
  | .queue command => inferInstanceAs (Decidable (command.type = queryServerDeclaration →
      s.task.found.isSome → s.outstanding.firstFree s.timeLimit command.start ≠ s.task.found))
  | .killPushedOut _ | .receive _ | .test | .copy | .reply | .checkTimeout _ | .killAll | .kill
  | .stop => inferInstanceAs (Decidable True)

/-- Every lookup that was queued is completed once or still waits, and what completes one has
its operation id. -/
structure Paired (s : Pairing) : Prop where
  once : ∀ c ∈ lookups s.queued,
    (s.done.map LookupDone.command).count c + s.waiting.count c = 1
  own : ∀ d ∈ s.done, ∀ u ∈ d.reply, u.asyncId = d.command.asyncId

/-! ## Every command comes to one end -/

section Accounted

variable {s t : Pairing} {e : Step}

/-- What waits may be listed in another order. -/
theorem Accounted.perm_of_waiting (h : s.Accounted) {commands : List Command}
    (hw : commands.Perm s.waiting) :
    (s.done.map LookupDone.command ++ lookups commands).Perm (lookups s.queued) :=
  ((hw.filter _).append_left _).trans h.perm

/-- A command that no longer waits is completed if it is a lookup. -/
theorem Accounted.perm_complete (h : s.Accounted) {command : Command} {reply : Option Unpacked}
    {result : UInt64} {commands : List Command} (hw : (command :: commands).Perm s.waiting) :
    ((s.complete command reply result).done.map LookupDone.command ++ lookups commands).Perm
      (lookups s.queued) := by
  refine .trans ?_ (h.perm_of_waiting hw)
  rw [complete]
  split
  · rename_i htype
    simpa [lookups, htype] using List.perm_middle.symm
  · rename_i htype
    simp [lookups, htype]

theorem Accounted.step (h : s.Accounted) (hs : s.step e = some t) : t.Accounted := by
  cases does_of_step hs with
  | @queue command killed i hfree hget =>
    refine ⟨?_, fun u j htask => ?_⟩
    · have hslots := Outstanding.perm_set hget (some command)
      have hwaiting : (killed.toList ++ s.pushedOut ++ (s.task.held ++
          (s.outstanding.set i (some command)).reduceOption)).Perm (command :: s.waiting) := by
        rw [List.perm_iff_count] at hslots ⊢
        intro c
        have hcount := hslots c
        simp only [waiting, List.count_append, List.count_cons, Option.toList_some,
          List.count_nil] at hcount ⊢
        omega
      refine ((hwaiting.filter _).append_left _).trans ?_
      rw [lookups, List.filter_cons, List.filter_cons]
      split
      · exact List.perm_middle.trans (h.perm.cons _)
      · exact h.perm
    · obtain ⟨c, hc⟩ := h.matched u j htask
      by_cases hij : i = j
      · obtain rfl := hij
        exact ⟨command, by simp [(List.getElem?_eq_some_iff.1 hget).1]⟩
      · exact ⟨c, by rwa [List.getElem?_set_ne hij]⟩
  | killPushedOut hmem =>
    refine ⟨h.perm_complete ?_, h.matched⟩
    exact ((List.perm_cons_erase hmem).symm.append_right _)
  | receive htask =>
    refine ⟨?_, fun u i htask' => by cases htask'⟩
    simpa [waiting, Task.held, htask] using h.perm
  | tested htask hget hother =>
    refine ⟨?_, fun u i htask' => by cases htask'⟩
    simpa [waiting, Task.held, htask] using h.perm
  | @found u i c htask hget hid =>
    refine ⟨?_, fun u' i' htask' => ?_⟩
    · simpa [waiting, Task.held, htask] using h.perm
    · cases htask'
      exact ⟨c, hget⟩
  | notFound htask hend =>
    refine ⟨?_, fun u i htask' => by cases htask'⟩
    simpa [waiting, Task.held, htask] using h.perm
  | copy htask hget =>
    refine ⟨h.perm_of_waiting ?_, fun u i htask' => by cases htask'⟩
    have hslots := Outstanding.perm_set hget none
    simpa [waiting, Task.held, htask] using hslots.append_left s.pushedOut
  | reply htask =>
    refine ⟨h.perm_complete ?_, fun u i htask' => by cases htask'⟩
    simpa [waiting, complete, Task.held, htask] using List.perm_middle.symm
  | @checkTimeout now htask =>
    refine ⟨h.perm_of_waiting ?_, fun u i htask' => by cases htask'⟩
    have hslots := Outstanding.perm_checkTimeout s.timeLimit now s.outstanding
    simpa [waiting, Task.held, htask] using hslots.append_left s.pushedOut
  | killAll htask =>
    refine ⟨h.perm_of_waiting ?_, fun u i htask' => by cases htask'⟩
    have hslots := Outstanding.perm_killAll s.outstanding
    simpa [waiting, Task.held, htask] using hslots.append_left s.pushedOut
  | kill htask =>
    refine ⟨h.perm_complete ?_, fun u i htask' => by cases htask'⟩
    simpa [waiting, complete, Task.held, htask] using List.perm_middle.symm
  | killed htask =>
    refine ⟨?_, fun u i htask' => by cases htask'⟩
    simpa [waiting, Task.held, htask] using h.perm
  | stop => exact ⟨h.perm, h.matched⟩

theorem Accounted.start (timeLimit : Nat) : (start timeLimit).Accounted :=
  ⟨by simp [Pairing.start, waiting, Task.held, lookups, Outstanding.empty],
    fun u i htask => by cases htask⟩

end Accounted

/-! ## Replies under their own ids -/

section Own

variable {s t : Pairing} {e : Step}

/-- A lookup in the slot that a packet was matched with has its operation id, and so has the
lookup that the packet will complete or has completed. -/
structure Own (s : Pairing) : Prop where
  matched : ∀ u i, s.task = .matched u i → ∀ c, s.outstanding[i]? = some (some c) →
    c.type = queryServerDeclaration → c.asyncId = u.asyncId
  replying : ∀ u c, s.task = .replying u c → c.type = queryServerDeclaration →
    c.asyncId = u.asyncId
  done : ∀ d ∈ s.done, ∀ u ∈ d.reply, u.asyncId = d.command.asyncId

theorem Own.done_complete (h : s.Own) {command : Command} {reply : Option Unpacked}
    {result : UInt64} (hreply : ∀ u ∈ reply, command.type = queryServerDeclaration →
      command.asyncId = u.asyncId) :
    ∀ d ∈ (s.complete command reply result).done, ∀ u ∈ d.reply,
      u.asyncId = d.command.asyncId := by
  intro d hd u hu
  rw [complete] at hd
  split at hd
  · rename_i htype
    obtain rfl | hd := List.mem_cons.1 hd
    · exact (hreply u hu htype).symm
    · exact h.done d hd u hu
  · exact h.done d hd u hu

theorem Own.step (h : s.Own) (hc : s.KeepsMatched e) (hs : s.step e = some t) : t.Own := by
  cases does_of_step hs with
  | @queue command killed i hfree hget =>
    refine ⟨fun u j htask c hslot htype => ?_, h.replying, h.done⟩
    by_cases hij : i = j
    · obtain rfl := hij
      have hi := (List.getElem?_eq_some_iff.1 hget).1
      obtain rfl : command = c := by simpa [hi] using hslot
      have hfound : s.task.found = some i := congrArg Task.found htask
      exact absurd (hfree.trans hfound.symm) (hc htype (by rw [hfound]; rfl))
    · rw [List.getElem?_set_ne hij] at hslot
      exact h.matched u j htask c hslot htype
  | killPushedOut hmem =>
    exact ⟨h.matched, h.replying, h.done_complete fun u hu => (by cases hu)⟩
  | receive | tested | notFound | checkTimeout | killAll | killed =>
    exact ⟨fun u i htask => (by cases htask), fun u c htask => (by cases htask), h.done⟩
  | @found u i c htask hget hid =>
    refine ⟨fun u' i' htask' d hslot _ => ?_, fun u c htask => (by cases htask), h.done⟩
    cases htask'
    cases hget.symm.trans hslot
    exact hid
  | @copy u i c htask hget =>
    refine ⟨fun u i htask => (by cases htask), fun u' c' htask' => ?_, h.done⟩
    cases htask'
    exact h.matched u i htask c hget
  | @reply u c htask =>
    refine ⟨fun u i htask => (by cases htask), fun u c htask => (by cases htask),
      h.done_complete fun v hv => ?_⟩
    cases hv
    exact h.replying u c htask
  | kill htask =>
    exact ⟨fun u i htask => (by cases htask), fun u c htask => (by cases htask),
      h.done_complete fun u hu => (by cases hu)⟩
  | stop => exact ⟨h.matched, h.replying, h.done⟩

theorem Own.start (timeLimit : Nat) : (start timeLimit).Own :=
  ⟨fun u i htask => (by cases htask), fun u c htask => (by cases htask), fun d hd => (by cases hd)⟩

end Own

/-! ## Once -/

section Once

variable {s t : Pairing} {e : Step} {timeLimit : Nat} {tr : List (Pairing × Step)}

theorem queued_of_step (hs : s.step e = some t) :
    t.queued = s.queued ∨ ∃ command, e = .queue command ∧ t.queued = command :: s.queued := by
  cases does_of_step hs with
  | queue hfree hget => exact .inr ⟨_, rfl, rfl⟩
  | _ => exact .inl rfl

theorem always_nodup_queued (h : Run step (start timeLimit) tr s) (hfresh : Meets FreshId tr) :
    Always (fun s => (s.queued.map Command.asyncId).Nodup) tr s := by
  refine h.always_of_meets (P := fun s => (s.queued.map Command.asyncId).Nodup) List.nodup_nil
    (fun s e t hs hid he => ?_) hfresh
  obtain hqueued | ⟨command, rfl, hqueued⟩ := queued_of_step he
  · rwa [hqueued]
  · rw [hqueued]
    exact List.nodup_cons.2 ⟨hid, hs⟩

/-- With distinct operation ids, each lookup is among those completed or those that wait. -/
theorem Accounted.once (h : s.Accounted) (hids : (s.queued.map Command.asyncId).Nodup)
    {c : Command} (hc : c ∈ lookups s.queued) :
    (s.done.map LookupDone.command).count c + s.waiting.count c = 1 := by
  have htype := (List.mem_filter.1 hc).2
  have hone : (lookups s.queued).count c = 1 :=
    List.count_eq_one_of_mem (hids.of_map.filter _) hc
  have hwaiting : (lookups s.waiting).count c = s.waiting.count c := List.count_filter htype
  have hcount := h.perm.count_eq c
  rwa [List.count_append, hone, hwaiting] at hcount

end Once

/-! ## No lookup waits forever -/

section Drain

variable {s t u : Pairing} {e : Step}

/-- The one state can become the other, with nothing queued on the way. -/
def Leads (s t : Pairing) : Prop :=
  t.queued = s.queued ∧ ∃ es, exec step s es = some t

theorem Leads.refl (s : Pairing) : s.Leads s :=
  ⟨rfl, [], rfl⟩

theorem Leads.head (he : s.step e = some t) (hqueued : t.queued = s.queued) (h : t.Leads u) :
    s.Leads u := by
  obtain ⟨hu, es, hes⟩ := h
  exact ⟨hu.trans hqueued, e :: es, by rw [exec, he]; exact hes⟩

theorem Leads.trans (hst : s.Leads t) (htu : t.Leads u) : s.Leads u := by
  obtain ⟨ht, es, hes⟩ := hst
  obtain ⟨hu, fs, hfs⟩ := htu
  exact ⟨hu.trans ht, es ++ fs, by rw [exec_append, hes]; exact hfs⟩

theorem leads_of_killing {cs : List Command} {result : UInt64}
    (htask : s.task = .killing cs result) :
    ∃ t, s.Leads t ∧ t.task = .idle ∧ t.outstanding = s.outstanding := by
  induction cs generalizing s with
  | nil =>
    have he : s.step .kill = some { s with task := .idle } := by simp [step, htask]
    exact ⟨_, .head he rfl (.refl _), rfl, rfl⟩
  | cons c cs ih =>
    have he : s.step .kill =
        some ({ s with task := .killing cs result }.complete c none result) := by
      simp [step, htask]
    obtain ⟨t, hlead, hidle, hslots⟩ := ih (s := { s with task := .killing cs result }.complete c
      none result) rfl
    exact ⟨t, .head he rfl hlead, hidle, hslots⟩

theorem leads_of_matched {packet : Unpacked} {i : Nat} {c : Command}
    (htask : s.task = .matched packet i) (hget : s.outstanding[i]? = some (some c)) :
    ∃ t, s.Leads t ∧ t.task = .idle := by
  have hcopy : s.step .copy =
      some { s with task := .replying packet c, outstanding := s.outstanding.set i none } := by
    simp [step, htask, hget]
  exact ⟨_, .head hcopy rfl (.head (e := .reply) rfl rfl (.refl _)), rfl⟩

theorem leads_of_testing {packet : Unpacked} {i : Nat} (htask : s.task = .testing packet i) :
    ∃ t, s.Leads t ∧ t.task = .idle := by
  -- Each test leaves one slot less.
  induction hn : s.outstanding.length - i generalizing s i with
  | zero =>
    have hend : s.outstanding[i]? = none := List.getElem?_eq_none_iff.2 (by omega)
    have he : s.step .test = some { s with task := .idle } := by simp [step, htask, hend]
    exact ⟨_, .head he rfl (.refl _), rfl⟩
  | succ n ih =>
    have hi : i < s.outstanding.length := by omega
    have hget := List.getElem?_eq_getElem hi
    cases hany : s.outstanding[i].any fun c => c.asyncId = packet.asyncId with
    | false =>
      have he : s.step .test = some { s with task := .testing packet (i + 1) } := by
        simp [step, htask, hget, hany]
      have hn' : s.outstanding.length - (i + 1) = n := by omega
      obtain ⟨t, hlead, hidle⟩ := ih (s := { s with task := .testing packet (i + 1) }) rfl hn'
      exact ⟨t, .head he rfl hlead, hidle⟩
    | true =>
      have he : s.step .test = some { s with task := .matched packet i } := by
        simp [step, htask, hget, hany]
      obtain ⟨c, hc, -⟩ := (Option.any_eq_true _ _).1 hany
      obtain ⟨t, hlead, hidle⟩ := leads_of_matched (s := { s with task := .matched packet i }) rfl
        (hget.trans (congrArg some hc))
      exact ⟨t, .head he rfl hlead, hidle⟩

/-- The thread of the client comes to the end of what it is about. -/
theorem Accounted.leads_idle (h : s.Accounted) : ∃ t, s.Leads t ∧ t.task = .idle := by
  cases htask : s.task with
  | idle => exact ⟨s, .refl s, htask⟩
  | testing packet i => exact leads_of_testing htask
  | matched packet i =>
    obtain ⟨c, hget⟩ := h.matched packet i htask
    exact leads_of_matched htask hget
  | replying packet c =>
    have he : s.step .reply =
        some ({ s with task := .idle }.complete c (some packet) (Client.replyResult packet)) := by
      simp [Pairing.step, htask]
    exact ⟨_, .head he rfl (.refl _), rfl⟩
  | killing cs result =>
    obtain ⟨t, hlead, hidle, -⟩ := leads_of_killing htask
    exact ⟨t, hlead, hidle⟩

/-- When the connection is lost all slots become free. -/
theorem leads_free (htask : s.task = .idle) :
    ∃ t, s.Leads t ∧ t.task = .idle ∧ t.outstanding.reduceOption = [] := by
  have he : s.step .killAll = some { s with
      outstanding := s.outstanding.killAll.1
      task := .killing s.outstanding.killAll.2 pxdConnectionLost } := by
    simp [step, htask]
  obtain ⟨t, hlead, hidle, hslots⟩ := leads_of_killing (s := { s with
    outstanding := s.outstanding.killAll.1
    task := .killing s.outstanding.killAll.2 pxdConnectionLost }) rfl
  exact ⟨t, .head he rfl hlead, hidle, by rw [hslots, Outstanding.reduceOption_killAll]⟩

theorem leads_killPushedOut (s : Pairing) :
    ∃ t, s.Leads t ∧ t.pushedOut = [] ∧ t.task = s.task ∧ t.outstanding = s.outstanding := by
  induction hp : s.pushedOut generalizing s with
  | nil => exact ⟨s, .refl s, hp, rfl, rfl⟩
  | cons c cs ih =>
    have he : s.step (.killPushedOut c) =
        some ({ s with pushedOut := cs }.complete c none pxdTimedOut) := by
      simp [step, hp]
    obtain ⟨t, hlead, hnone, htask, hslots⟩ :=
      ih ({ s with pushedOut := cs }.complete c none pxdTimedOut) rfl
    exact ⟨t, .head he rfl hlead, hnone, htask, hslots⟩

theorem Accounted.leads_drained (h : s.Accounted) : ∃ t, s.Leads t ∧ t.waiting = [] := by
  obtain ⟨t, hst, hidle⟩ := h.leads_idle
  obtain ⟨u, htu, hidle, hfree⟩ := leads_free hidle
  obtain ⟨v, huv, hnone, htask, hslots⟩ := leads_killPushedOut u
  refine ⟨v, hst.trans (htu.trans huv), ?_⟩
  rw [waiting, hnone, htask, hidle, hslots, hfree]
  rfl

end Drain

/-! ## Looking for a command without interruption -/

section Find

variable {s : Pairing} {u : Unpacked}

theorem step_test {i : Nat} {slot : Option Command} {slots : Outstanding}
    (htask : s.task = .testing u i) (hslots : s.outstanding.drop i = slot :: slots) :
    s.step .test = some { s with
      task := if slot.any fun c => c.asyncId = u.asyncId then .matched u i
        else .testing u (i + 1) } := by
  have hget : s.outstanding[i]? = some slot := by
    rw [← List.head?_drop, hslots, List.head?_cons]
  simp [step, htask, hget]

theorem drop_add_one {i : Nat} {slot : Option Command} {slots : Outstanding}
    (hslots : s.outstanding.drop i = slot :: slots) : s.outstanding.drop (i + 1) = slots := by
  rw [← List.drop_drop, hslots, List.drop_one, List.tail_cons]

theorem exec_notFound {i : Nat} {slots : Outstanding} (htask : s.task = .testing u i)
    (hslots : s.outstanding.drop i = slots) (hfind : Outstanding.find u.asyncId slots = none) :
    exec step s (.replicate (slots.length + 1) .test) = some { s with task := .idle } := by
  induction slots generalizing s i with
  | nil =>
    have hend : s.outstanding[i]? = none :=
      List.getElem?_eq_none_iff.2 (List.drop_eq_nil_iff.1 hslots)
    simp [exec, step, htask, hend]
  | cons slot slots ih =>
    rw [List.length_cons, List.replicate_succ, exec, step_test htask hslots]
    cases hany : slot.any fun c => c.asyncId = u.asyncId with
    | false =>
      rw [Outstanding.find_cons_of_any_eq_false hany, Option.map_eq_none_iff] at hfind
      exact ih (s := { s with task := .testing u (i + 1) }) rfl (drop_add_one hslots) hfind
    | true =>
      obtain ⟨c, rfl, hid⟩ := (Option.any_eq_true _ _).1 hany
      simp [Outstanding.find, of_decide_eq_true hid] at hfind

theorem exec_found {i : Nat} {slots slots' : Outstanding} {c : Command}
    (htask : s.task = .testing u i) (hslots : s.outstanding.drop i = slots)
    (hfind : Outstanding.find u.asyncId slots = some (c, slots')) :
    ∃ n, exec step s (.replicate n .test ++ [.copy]) = some { s with
      task := .replying u c
      outstanding := s.outstanding.take i ++ slots' } := by
  induction slots generalizing s i slots' with
  | nil => cases hfind
  | cons slot slots ih =>
    have hget : s.outstanding[i]? = some slot := by
      rw [← List.head?_drop, hslots, List.head?_cons]
    have hi := (List.getElem?_eq_some_iff.1 hget).1
    cases hany : slot.any fun c => c.asyncId = u.asyncId with
    | false =>
      rw [Outstanding.find_cons_of_any_eq_false hany] at hfind
      obtain ⟨⟨d, rest⟩, hrest, heq⟩ := Option.map_eq_some_iff.1 hfind
      obtain ⟨rfl, rfl⟩ := Prod.mk.inj heq
      obtain ⟨n, hn⟩ := ih (s := { s with task := .testing u (i + 1) }) rfl
        (drop_add_one hslots) hrest
      refine ⟨n + 1, ?_⟩
      rw [List.replicate_succ, List.cons_append, exec, step_test htask hslots, hany]
      refine hn.trans ?_
      rw [List.take_add_one, hget, Option.toList_some, List.append_assoc, List.singleton_append]
    | true =>
      obtain ⟨d, rfl, hid⟩ := (Option.any_eq_true _ _).1 hany
      rw [Outstanding.find, if_pos (of_decide_eq_true hid)] at hfind
      obtain ⟨rfl, rfl⟩ := Prod.mk.inj (Option.some.inj hfind)
      have hset : s.outstanding.set i none = s.outstanding.take i ++ none :: slots := by
        rw [List.set_eq_take_append_cons_drop, if_pos hi, drop_add_one hslots]
      have hcopy : step { s with task := .matched u i } .copy = some { s with
          task := .replying u d
          outstanding := s.outstanding.take i ++ none :: slots } := by
        simp only [step, hget, hset]
      refine ⟨1, ?_⟩
      rw [List.replicate_one, List.singleton_append, exec, step_test htask hslots, hany]
      exact congrArg (Option.bind · fun t => some t) hcopy

/-- When nothing comes in between, the tests and the copy find what one look at the slots would
find. -/
theorem run_find (htask : s.task = .testing u 0) :
    (Outstanding.find u.asyncId s.outstanding = none →
      ∃ n, exec step s (.replicate n .test) = some { s with task := .idle }) ∧
    ∀ c slots, Outstanding.find u.asyncId s.outstanding = some (c, slots) →
      ∃ n, exec step s (.replicate n .test ++ [.copy]) =
        some { s with task := .replying u c, outstanding := slots } := by
  refine ⟨fun hfind => ⟨_, exec_notFound htask List.drop_zero hfind⟩, fun c slots hfind => ?_⟩
  obtain ⟨n, hn⟩ := exec_found htask List.drop_zero hfind
  exact ⟨n, by simpa using hn⟩

end Find

/-! ## The contract -/

section Contract

variable {timeLimit : Nat} {tr : List (Pairing × Step)} {s : Pairing}

/-- Every lookup is completed once or still waits, and in no reachable state is it too late to
complete all that wait. What completes a lookup has its operation id as long as no lookup gets
a slot between the test for a packet and the copy. -/
theorem paired_of_meets (h : Run step (start timeLimit) tr s) (hfresh : Meets FreshId tr)
    (hkeeps : Meets KeepsMatched tr) :
    Always Paired tr s ∧
      ∃ es t, exec step s es = some t ∧ t.queued = s.queued ∧ t.waiting = [] := by
  have hown : Always Own tr s :=
    h.always_of_meets (.start timeLimit) (fun s e t hs hc he => hs.step hc he) hkeeps
  have hids : Always (fun s => (s.queued.map Command.asyncId).Nodup) tr s :=
    always_nodup_queued h hfresh
  have haccounted : Always Accounted tr s :=
    h.always (.start timeLimit) fun s e t hs he => hs.step he
  have hpaired : ∀ s : Pairing, s.Own → (s.queued.map Command.asyncId).Nodup → s.Accounted →
      s.Paired := fun s hown hids haccounted =>
    ⟨fun c hc => haccounted.once hids hc, hown.done⟩
  refine ⟨⟨fun x hx => hpaired x.1 (hown.1 x hx) (hids.1 x hx) (haccounted.1 x hx),
    hpaired s hown.2 hids.2 haccounted.2⟩, ?_⟩
  obtain ⟨t, ⟨hqueued, es, hes⟩, hnone⟩ := haccounted.2.leads_drained
  exact ⟨es, t, hes, hqueued, hnone⟩

end Contract

/-! ### A late reply -/

def someReply : Unpacked :=
  .ofHeader .sendServerDeclaration ⟨0, 0, PacketType.sendServerDeclaration.code, 5, 1, 1⟩

/-- The second lookup gets another slot, for the first is still in time. -/
def replyInTime : List Step :=
  [.queue ⟨1, none, queryServerDeclaration, 0⟩, .receive someReply, .test,
    .queue ⟨2, none, queryServerDeclaration, 6000000⟩, .copy, .reply, .checkTimeout 12000001,
    .kill, .kill]

theorem paired_of_meets_replyInTime :
    ∃ tr s, Run step (start 6000000) tr s ∧ tr.length = 9 ∧ Always Paired tr s := by
  have he : (exec step (start 6000000) replyInTime).isSome = true := by decide +kernel
  obtain ⟨s, hs⟩ := Option.isSome_iff_exists.1 he
  have hfresh : Meets FreshId (trace step (start 6000000) replyInTime).reverse := by
    decide +kernel
  have hkeeps : Meets KeepsMatched (trace step (start 6000000) replyInTime).reverse := by
    decide +kernel
  exact ⟨_, s, run_trace hs, by
    simpa [replyInTime] using congrArg List.length (map_snd_trace hs),
    (paired_of_meets (run_trace hs) hfresh hkeeps).1⟩

/-- The slot of the first lookup passes the test in time, and is then given to the second. -/
def replyLate : List Step :=
  [.queue ⟨1, none, queryServerDeclaration, 0⟩, .receive someReply, .test,
    .queue ⟨2, none, queryServerDeclaration, 6000001⟩, .copy, .reply]

theorem not_paired_replyLate :
    ∃ tr s, Run step (start 6000000) tr s ∧ Meets FreshId tr ∧ ¬Paired s := by
  have he : (exec step (start 6000000) replyLate).any
      (fun s => s.done = [⟨⟨2, none, queryServerDeclaration, 6000001⟩, some someReply,
        pxdOpSuccessful⟩]) = true := by
    decide +kernel
  obtain ⟨s, hs, hdone⟩ := (Option.any_eq_true _ _).1 he
  refine ⟨_, s, run_trace hs, by decide +kernel, fun h => ?_⟩
  have hown := h.own _ (by rw [of_decide_eq_true hdone]; exact .head _) someReply rfl
  exact absurd hown (by decide)


end Pairing

end PersonalCloud.Pxd
