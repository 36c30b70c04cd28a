import Banana.Library.Transition
import Mathlib.Data.BitVec
import Mathlib.Logic.Function.Basic

/-!
# LibeventReactor

The event table of `network/LibeventReactor.cpp`.  For every fd and direction
there is a libevent event object, which may be pending, and a callback.  When an
event fires libevent takes it off the pending ones, and `__onEvent` moves the
callback out of the table, asserts that there was one and runs it.  Every fd and
direction has a slot of its own, and the reactor is the product of its slots.

A `std::function` that has been moved from is taken to be empty.
-/

namespace Banana.LibeventReactor

open Transition

variable {Cb : Type*}

inductive Direction
  | read
  | write
  deriving DecidableEq

def eventAccept : BitVec 16 := 1

def eventWrite : BitVec 16 := 2

def eventRead : BitVec 16 := 4

def Direction.mask : Direction → BitVec 16
  | read => eventRead
  | write => eventWrite

/-- The bit of the direction is set in `events`. -/
def Wants (events : BitVec 16) (d : Direction) : Prop := events &&& d.mask ≠ 0

instance (events : BitVec 16) (d : Direction) : Decidable (Wants events d) :=
  inferInstanceAs (Decidable (events &&& d.mask ≠ 0))

/-- The fields of one direction: a pointer to an event object, with whether it is
pending, and a callback, which may be empty. -/
structure EventSlot (Cb : Type*) where
  event : Option Bool
  callback : Option Cb
  deriving DecidableEq

/-- `acceptCallback` is `pAcceptCallback_`, a pointer to a function that may be
empty. -/
structure Reactor (Cb : Type*) where
  maxFds : ℕ
  acceptCallback : Option (Option Cb)
  listener : Bool
  slots : ℤ → Direction → EventSlot Cb

/-- Which calls of libevent succeed. -/
structure Libevent where
  listenerNew : Bool
  eventNew : Direction → Bool
  eventAdd : Direction → Bool

def Libevent.succeeds : Libevent := ⟨true, fun _ => true, fun _ => true⟩

namespace EventSlot

def empty : EventSlot Cb := ⟨none, none⟩

/-- The part of `addEventHandler` for one direction. -/
def add (eventNew eventAdd : Bool) (slot : EventSlot Cb) (cb : Option Cb) :
    Bool × EventSlot Cb :=
  match slot.event with
  | none =>
      if eventNew then
        if eventAdd then (true, ⟨some true, cb⟩) else (false, ⟨some false, slot.callback⟩)
      else (false, slot)
  | some _ => if eventAdd then (true, ⟨some true, cb⟩) else (false, slot)

def enable (slot : EventSlot Cb) : EventSlot Cb :=
  { slot with event := slot.event.map fun _ => true }

def disable (slot : EventSlot Cb) : EventSlot Cb :=
  { slot with event := slot.event.map fun _ => false }

/-- The event object is freed; the callback stays. -/
def remove (slot : EventSlot Cb) : EventSlot Cb := { slot with event := none }

/-- The event is not pending any more and the callback has been moved out. -/
def fire (slot : EventSlot Cb) : EventSlot Cb := ⟨slot.event.map fun _ => false, none⟩

end EventSlot

namespace Reactor

def init (maxFds : ℕ) : Reactor Cb := ⟨maxFds, none, false, fun _ _ => .empty⟩

def setSlot (r : Reactor Cb) (fd : ℤ) (d : Direction) (slot : EventSlot Cb) : Reactor Cb :=
  { r with slots := Function.update r.slots fd (Function.update (r.slots fd) d slot) }

def addAccept (r : Reactor Cb) (lib : Libevent) (events : BitVec 16) (cb : Option Cb) :
    Bool × Reactor Cb :=
  if events &&& eventAccept ≠ 0 ∧ r.acceptCallback = none then
    (lib.listenerNew, { r with acceptCallback := some cb, listener := lib.listenerNew })
  else (true, r)

def addDirection (r : Reactor Cb) (lib : Libevent) (d : Direction) (fd : ℤ)
    (events : BitVec 16) (cb : Option Cb) : Bool × Reactor Cb :=
  if Wants events d then
    ((EventSlot.add (lib.eventNew d) (lib.eventAdd d) (r.slots fd d) cb).1,
      r.setSlot fd d (EventSlot.add (lib.eventNew d) (lib.eventAdd d) (r.slots fd d) cb).2)
  else (true, r)

def addEventHandler (r : Reactor Cb) (lib : Libevent) (fd : ℤ) (events : BitVec 16)
    (cb : Option Cb) : Bool × Reactor Cb :=
  match r.addAccept lib events cb with
  | (false, r) => (false, r)
  | (true, r) =>
      match r.addDirection lib .read fd events cb with
      | (false, r) => (false, r)
      | (true, r) => r.addDirection lib .write fd events cb

/-- What the other operations do in each direction whose bit is set. -/
def onWanted (f : EventSlot Cb → EventSlot Cb) (r : Reactor Cb) (fd : ℤ)
    (events : BitVec 16) : Reactor Cb :=
  { r with slots := fun fd' d =>
      if fd' = fd ∧ Wants events d then f (r.slots fd' d) else r.slots fd' d }

def enableEvent (r : Reactor Cb) (fd : ℤ) (events : BitVec 16) : Reactor Cb :=
  onWanted .enable r fd events

def disableEvent (r : Reactor Cb) (fd : ℤ) (events : BitVec 16) : Reactor Cb :=
  onWanted .disable r fd events

def removeEventHandler (r : Reactor Cb) (fd : ℤ) (events : BitVec 16) : Reactor Cb :=
  onWanted .remove r fd events

end Reactor

/-! ## The event loop -/

/-- `running` is the callback that `__onEvent` has called, `failed` says that its
assertion has failed. -/
structure Loop (Cb : Type*) where
  reactor : Reactor Cb
  running : Option (ℤ × Direction × Cb)
  failed : Bool

/-- The calls may come from outside or from inside a running callback. -/
inductive Action (Cb : Type*)
  | addEventHandler (fd : ℤ) (events : BitVec 16) (cb : Option Cb)
  | enableEvent (fd : ℤ) (events : BitVec 16)
  | disableEvent (fd : ℤ) (events : BitVec 16)
  | removeEventHandler (fd : ℤ) (events : BitVec 16)
  | onEvent (fd : ℤ) (d : Direction)
  | returns

namespace Loop

def start (maxFds : ℕ) : Loop Cb := ⟨.init maxFds, none, false⟩

/-- The table has an entry for the fd. -/
def Valid (l : Loop Cb) (fd : ℤ) : Prop := 0 ≤ fd ∧ fd < l.reactor.maxFds

instance (l : Loop Cb) (fd : ℤ) : Decidable (l.Valid fd) :=
  inferInstanceAs (Decidable (0 ≤ fd ∧ fd < l.reactor.maxFds))

/-- The event loop runs one callback at a time, and only for a pending event. -/
def step (l : Loop Cb) : Action Cb → Option (Loop Cb)
  | .addEventHandler fd events cb =>
      if l.failed = false ∧ l.Valid fd then
        some { l with reactor := (l.reactor.addEventHandler .succeeds fd events cb).2 }
      else none
  | .enableEvent fd events =>
      if l.failed = false ∧ l.Valid fd then
        some { l with reactor := l.reactor.enableEvent fd events }
      else none
  | .disableEvent fd events =>
      if l.failed = false ∧ l.Valid fd then
        some { l with reactor := l.reactor.disableEvent fd events }
      else none
  | .removeEventHandler fd events =>
      if l.failed = false ∧ l.Valid fd then
        some { l with reactor := l.reactor.removeEventHandler fd events }
      else none
  | .onEvent fd d =>
      if l.failed = false ∧ l.running = none ∧ (l.reactor.slots fd d).event = some true then
        match (l.reactor.slots fd d).callback with
        | none => some ⟨l.reactor.setSlot fd d (l.reactor.slots fd d).fire, none, true⟩
        | some cb =>
            some ⟨l.reactor.setSlot fd d (l.reactor.slots fd d).fire, some (fd, d, cb), false⟩
      else none
  | .returns =>
      if l.failed = false ∧ l.running.isSome then some { l with running := none } else none

end Loop

/-! ## One slot -/

/-- What an action is for one fd and direction. -/
inductive SlotOp (Cb : Type*)
  | add (cb : Option Cb)
  | enable
  | disable
  | remove
  | fire

def SlotOp.apply (slot : EventSlot Cb) : SlotOp Cb → EventSlot Cb
  | .add cb => ⟨some true, cb⟩
  | .enable => slot.enable
  | .disable => slot.disable
  | .remove => slot.remove
  | .fire => slot.fire

def slotOp (fd : ℤ) (d : Direction) : Action Cb → Option (SlotOp Cb)
  | .addEventHandler fd' events cb => if fd = fd' ∧ Wants events d then some (.add cb) else none
  | .enableEvent fd' events => if fd = fd' ∧ Wants events d then some .enable else none
  | .disableEvent fd' events => if fd = fd' ∧ Wants events d then some .disable else none
  | .removeEventHandler fd' events => if fd = fd' ∧ Wants events d then some .remove else none
  | .onEvent fd' d' => if fd = fd' ∧ d = d' then some .fire else none
  | .returns => none

theorem setSlot_slots (r : Reactor Cb) (fd : ℤ) (d : Direction) (slot : EventSlot Cb) (fd' : ℤ)
    (d' : Direction) :
    (r.setSlot fd d slot).slots fd' d' = if fd' = fd ∧ d' = d then slot else r.slots fd' d' := by
  unfold Reactor.setSlot
  by_cases hfd : fd' = fd
  · subst fd'
    by_cases hd : d' = d
    · subst d'
      simp
    · simp [hd]
  · simp [hfd]

theorem addDirection_slots (r : Reactor Cb) (d : Direction) (fd : ℤ) (events : BitVec 16)
    (cb : Option Cb) (fd' : ℤ) (d' : Direction) :
    (r.addDirection .succeeds d fd events cb).1 = true ∧
      (r.addDirection .succeeds d fd events cb).2.slots fd' d' =
        if fd' = fd ∧ d' = d ∧ Wants events d then ⟨some true, cb⟩ else r.slots fd' d' := by
  have hadd : ∀ slot : EventSlot Cb,
      EventSlot.add (Libevent.succeeds.eventNew d) (Libevent.succeeds.eventAdd d) slot cb =
        (true, ⟨some true, cb⟩) := by
    intro slot
    unfold EventSlot.add Libevent.succeeds
    cases slot.event <;> rfl
  unfold Reactor.addDirection
  by_cases hwants : Wants events d
  · rw [if_pos hwants, hadd]
    simp [setSlot_slots, hwants]
  · rw [if_neg hwants]
    simp [hwants]

theorem addEventHandler_slots (r : Reactor Cb) (fd : ℤ) (events : BitVec 16) (cb : Option Cb)
    (fd' : ℤ) (d' : Direction) :
    (r.addEventHandler .succeeds fd events cb).2.slots fd' d' =
      if fd' = fd ∧ Wants events d' then ⟨some true, cb⟩ else r.slots fd' d' := by
  obtain ⟨r', haccept, hslots⟩ : ∃ r' : Reactor Cb,
      r.addAccept .succeeds events cb = (true, r') ∧ r'.slots = r.slots := by
    unfold Reactor.addAccept
    split_ifs
    · exact ⟨_, rfl, rfl⟩
    · exact ⟨r, rfl, rfl⟩
  have hread := addDirection_slots r' .read fd events cb
  rcases hout : r'.addDirection .succeeds .read fd events cb with ⟨ok, r''⟩
  rw [hout] at hread
  obtain rfl : ok = true := (hread fd .read).1
  rw [Reactor.addEventHandler, haccept]
  simp only [hout]
  rw [(addDirection_slots r'' .write fd events cb fd' d').2, (hread fd' d').2, hslots]
  cases d' <;> simp

/-- A step changes a slot as its own operation says, and no other slot. -/
theorem slots_of_step {l l' : Loop Cb} {a : Action Cb} (h : l.step a = some l') (fd : ℤ)
    (d : Direction) :
    l'.reactor.slots fd d =
      ((slotOp fd d a).elim (l.reactor.slots fd d) (SlotOp.apply (l.reactor.slots fd d))) := by
  cases a with
  | addEventHandler fd' events cb =>
      simp only [Loop.step, Option.ite_none_right_eq_some, Option.some.injEq] at h
      obtain ⟨-, rfl⟩ := h
      simp only [addEventHandler_slots, slotOp]
      split_ifs <;> rfl
  | enableEvent fd' events =>
      simp only [Loop.step, Option.ite_none_right_eq_some, Option.some.injEq] at h
      obtain ⟨-, rfl⟩ := h
      simp only [Reactor.enableEvent, Reactor.onWanted, slotOp]
      split_ifs <;> rfl
  | disableEvent fd' events =>
      simp only [Loop.step, Option.ite_none_right_eq_some, Option.some.injEq] at h
      obtain ⟨-, rfl⟩ := h
      simp only [Reactor.disableEvent, Reactor.onWanted, slotOp]
      split_ifs <;> rfl
  | removeEventHandler fd' events =>
      simp only [Loop.step, Option.ite_none_right_eq_some, Option.some.injEq] at h
      obtain ⟨-, rfl⟩ := h
      simp only [Reactor.removeEventHandler, Reactor.onWanted, slotOp]
      split_ifs <;> rfl
  | onEvent fd' d' =>
      simp only [Loop.step, Option.ite_none_right_eq_some] at h
      obtain ⟨-, h⟩ := h
      have hslot : l'.reactor = l.reactor.setSlot fd' d' (l.reactor.slots fd' d').fire := by
        cases hcb : (l.reactor.slots fd' d').callback <;> rw [hcb] at h <;>
          rw [← Option.some.inj h]
      rw [hslot, setSlot_slots, slotOp]
      split_ifs with hsame
      · rw [hsame.1, hsame.2]
        rfl
      · rfl
  | returns =>
      simp only [Loop.step, Option.ite_none_right_eq_some, Option.some.injEq] at h
      obtain ⟨-, rfl⟩ := h
      rfl

theorem failed_of_step {l l' : Loop Cb} {a : Action Cb} (h : l.step a = some l') :
    l'.failed = true ↔ ∃ fd d, a = .onEvent fd d ∧ (l.reactor.slots fd d).callback = none := by
  cases a with
  | onEvent fd d =>
      simp only [Loop.step, Option.ite_none_right_eq_some] at h
      obtain ⟨-, h⟩ := h
      cases hcb : (l.reactor.slots fd d).callback with
      | none =>
          rw [hcb] at h
          rw [← Option.some.inj h]
          exact ⟨fun _ => ⟨fd, d, rfl, hcb⟩, fun _ => rfl⟩
      | some cb =>
          rw [hcb] at h
          rw [← Option.some.inj h]
          refine ⟨fun hfailed => absurd hfailed (by simp), ?_⟩
          rintro ⟨fd', d', hsame, hnone⟩
          obtain ⟨rfl, rfl⟩ := Action.onEvent.inj hsame
          simp [hcb] at hnone
  | _ =>
      simp only [Loop.step, Option.ite_none_right_eq_some, Option.some.injEq] at h
      obtain ⟨⟨hfailed, -⟩, rfl⟩ := h
      simp [hfailed]

/-! ## Pending events have a callback -/

/-- Every pending event has a callback, and no assertion has failed. -/
def Armed (l : Loop Cb) : Prop :=
  l.failed = false ∧
    ∀ fd d, (l.reactor.slots fd d).event = some true → (l.reactor.slots fd d).callback ≠ none

/-- The condition on a call: `addEventHandler` is given a callback, and
`enableEvent` finds one where it finds an event object. -/
def KeepsCallback (l : Loop Cb) : Action Cb → Prop
  | .addEventHandler _ events cb => ∀ d, Wants events d → cb ≠ none
  | .enableEvent fd events => ∀ d, Wants events d →
      (l.reactor.slots fd d).event ≠ none → (l.reactor.slots fd d).callback ≠ none
  | _ => True

theorem armed_start (maxFds : ℕ) : Armed (Loop.start maxFds : Loop Cb) := by
  refine ⟨rfl, fun fd d hpending => ?_⟩
  simp [Loop.start, Reactor.init, EventSlot.empty] at hpending

theorem Armed.callback_of_onEvent {l l' : Loop Cb} {fd : ℤ} {d : Direction} (hl : Armed l)
    (h : l.step (.onEvent fd d) = some l') : (l.reactor.slots fd d).callback ≠ none := by
  simp only [Loop.step, Option.ite_none_right_eq_some] at h
  exact hl.2 fd d h.1.2.2

/-- Only the two operations that make an event pending can break it. -/
theorem Armed.step_iff {l l' : Loop Cb} {a : Action Cb} (hl : Armed l)
    (h : l.step a = some l') : KeepsCallback l a ↔ Armed l' := by
  have hfailed : l'.failed = false := by
    rw [← Bool.not_eq_true, failed_of_step h]
    rintro ⟨fd, d, rfl, hnone⟩
    exact hl.callback_of_onEvent h hnone
  have hslots := slots_of_step h
  cases a with
  | addEventHandler fd events cb =>
      constructor
      · intro hcb
        refine ⟨hfailed, fun fd' d => ?_⟩
        rw [hslots, slotOp]
        by_cases hsame : fd' = fd ∧ Wants events d
        · rw [if_pos hsame]
          exact fun _ => hcb d hsame.2
        · rw [if_neg hsame]
          exact hl.2 fd' d
      · rintro ⟨-, hall⟩ d hwants
        have hslot := hall fd d
        rw [hslots, slotOp, if_pos ⟨rfl, hwants⟩] at hslot
        exact hslot rfl
  | enableEvent fd events =>
      constructor
      · intro hcb
        refine ⟨hfailed, fun fd' d => ?_⟩
        rw [hslots, slotOp]
        by_cases hsame : fd' = fd ∧ Wants events d
        · rw [if_pos hsame]
          obtain ⟨rfl, hwants⟩ := hsame
          intro hpending
          refine hcb d hwants fun hnone => ?_
          simp [SlotOp.apply, EventSlot.enable, hnone] at hpending
        · rw [if_neg hsame]
          exact hl.2 fd' d
      · rintro ⟨-, hall⟩ d hwants hevent
        have hslot := hall fd d
        rw [hslots, slotOp, if_pos ⟨rfl, hwants⟩] at hslot
        obtain ⟨pending, hpending⟩ := Option.ne_none_iff_exists'.mp hevent
        exact hslot (by simp [SlotOp.apply, EventSlot.enable, hpending])
  | disableEvent fd events =>
      refine ⟨fun _ => ⟨hfailed, fun fd' d => ?_⟩, fun _ => trivial⟩
      rw [hslots, slotOp]
      split_ifs
      · simp [SlotOp.apply, EventSlot.disable]
      · exact hl.2 fd' d
  | removeEventHandler fd events =>
      refine ⟨fun _ => ⟨hfailed, fun fd' d => ?_⟩, fun _ => trivial⟩
      rw [hslots, slotOp]
      split_ifs
      · simp [SlotOp.apply, EventSlot.remove]
      · exact hl.2 fd' d
  | onEvent fd d' =>
      refine ⟨fun _ => ⟨hfailed, fun fd' d => ?_⟩, fun _ => trivial⟩
      rw [hslots, slotOp]
      split_ifs
      · simp [SlotOp.apply, EventSlot.fire]
      · exact hl.2 fd' d
  | returns =>
      refine ⟨fun _ => ⟨hfailed, fun fd' d => ?_⟩, fun _ => trivial⟩
      rw [hslots]
      exact hl.2 fd' d

/-- In every state of a run the pending events have callbacks and no assertion has
failed, exactly when every call of the run meets the condition. -/
theorem armed_iff_keepsCallback {maxFds : ℕ} {as : List (Action Cb)} {l : Loop Cb}
    (hrun : run Loop.step (Loop.start maxFds) as = some l) :
    Along KeepsCallback Loop.step (Loop.start maxFds) as ↔
      ∀ bs l', bs <+: as → run Loop.step (Loop.start maxFds) bs = some l' → Armed l' :=
  along_iff_forall_prefix (I := fun _ => True) (G := Armed) (fun _ _ _ _ _ => trivial)
    (fun _ _ _ _ hl h => hl.step_iff h) trivial (armed_start maxFds) hrun

/-- A handler that is added again from inside its own callback. -/
def addedAgain : List (Action ℕ) :=
  [.addEventHandler 5 eventRead (some 1), .onEvent 5 .read,
    .addEventHandler 5 eventRead (some 2), .returns, .onEvent 5 .read]

theorem armed_iff_keepsCallback_addedAgain :
    ∃ l : Loop ℕ, run Loop.step (Loop.start 60000) addedAgain = some l ∧ Armed l := by
  obtain ⟨l, hrun⟩ : ∃ l, run Loop.step (Loop.start 60000) addedAgain = some l := ⟨_, rfl⟩
  have hcalls : Along KeepsCallback Loop.step (Loop.start 60000) addedAgain := by
    simp [addedAgain, Along, KeepsCallback]
  exact ⟨l, hrun, (armed_iff_keepsCallback hrun).mp hcalls addedAgain l List.prefix_rfl hrun⟩

/-- `enableEvent` after the event has fired. -/
def enabledAfterFire : List (Action ℕ) :=
  [.addEventHandler 5 eventRead (some 1), .onEvent 5 .read, .returns,
    .enableEvent 5 eventRead]

theorem not_armed_enabledAfterFire :
    ∃ l : Loop ℕ, run Loop.step (Loop.start 60000) enabledAfterFire = some l ∧ ¬ Armed l ∧
      ∃ l', l.step (.onEvent 5 .read) = some l' ∧ l'.failed = true := by
  refine ⟨_, rfl, fun harmed => ?_, _, rfl, rfl⟩
  exact harmed.2 5 .read rfl rfl

end Banana.LibeventReactor
