import Banana.Network.EventTable

/-!
# What addEventHandler promises

A call registers up to three kinds of events in a row and returns false at the
first one that fails.  What it has registered before stays, and the accept
callback is stored before the listener exists.  `TellsTruth` is what a caller
takes from the result: true means that everything is armed, false that nothing
has changed and that it may try again.  `Undisturbed` says when a call keeps it.
-/

namespace Banana.LibeventReactor

open Transition

variable {Cb : Type*}

def WantsAccept (events : BitVec 16) : Prop := events &&& eventAccept ≠ 0

instance (events : BitVec 16) : Decidable (WantsAccept events) :=
  inferInstanceAs (Decidable (events &&& eventAccept ≠ 0))

namespace Reactor

/-- The callback of a pending event. -/
def armed (r : Reactor Cb) (fd : ℤ) (d : Direction) : Option (Option Cb) :=
  if (r.slots fd d).event = some true then some (r.slots fd d).callback else none

/-- The callback that the listener invokes, if there is a listener. -/
def listening (r : Reactor Cb) : Option (Option Cb) :=
  if r.listener then r.acceptCallback else none

/-- Every requested kind is armed with `cb`. -/
def ArmedWith (r : Reactor Cb) (fd : ℤ) (events : BitVec 16) (cb : Option Cb) : Prop :=
  (WantsAccept events → r.listening = some cb) ∧ ∀ d, Wants events d → r.armed fd d = some cb

/-- The same events are armed with the same callbacks. -/
def SameArmed (r r' : Reactor Cb) : Prop :=
  r'.listening = r.listening ∧ ∀ fd d, r'.armed fd d = r.armed fd d

/-- The second part of a refused call is the retry in which nothing fails. -/
def TellsTruth (r : Reactor Cb) (lib : Libevent) (fd : ℤ) (events : BitVec 16)
    (cb : Option Cb) : Prop :=
  ((r.addEventHandler lib fd events cb).1 = true →
    (r.addEventHandler lib fd events cb).2.ArmedWith fd events cb) ∧
  ((r.addEventHandler lib fd events cb).1 = false →
    r.SameArmed (r.addEventHandler lib fd events cb).2 ∧
    ((r.addEventHandler lib fd events cb).2.addEventHandler .succeeds fd events cb).1 = true ∧
    ((r.addEventHandler lib fd events cb).2.addEventHandler .succeeds fd events cb).2.ArmedWith
      fd events cb)

/-- The calls of libevent for this direction succeed. -/
def AddSucceeds (r : Reactor Cb) (lib : Libevent) (fd : ℤ) (d : Direction) : Prop :=
  ((r.slots fd d).event = none → lib.eventNew d = true) ∧ lib.eventAdd d = true

/-- The condition on a call: the listener is there with this callback, or there is
none and everything succeeds; and where reading is armed before writing fails, it
was armed so before. -/
@[mk_iff] structure Undisturbed (r : Reactor Cb) (lib : Libevent) (fd : ℤ) (events : BitVec 16)
    (cb : Option Cb) : Prop where
  accept : WantsAccept events → r.listening = some cb ∨
    (r.acceptCallback = none ∧ lib.listenerNew = true ∧
      ∀ d, Wants events d → r.AddSucceeds lib fd d)
  readBeforeWrite : Wants events .read → Wants events .write → r.AddSucceeds lib fd .read →
    ¬ r.AddSucceeds lib fd .write → r.armed fd .read = some cb

instance {p : Direction → Prop} [DecidablePred p] : Decidable (∀ d, p d) :=
  decidable_of_iff (p .read ∧ p .write)
    ⟨fun h d => match d with
      | .read => h.1
      | .write => h.2, fun h => ⟨h .read, h .write⟩⟩

instance (r : Reactor Cb) (lib : Libevent) (fd : ℤ) (d : Direction) :
    Decidable (r.AddSucceeds lib fd d) :=
  inferInstanceAs (Decidable ((_ → _) ∧ _))

instance [DecidableEq Cb] (r : Reactor Cb) (lib : Libevent) (fd : ℤ) (events : BitVec 16)
    (cb : Option Cb) : Decidable (r.Undisturbed lib fd events cb) :=
  @decidable_of_iff _ _ (undisturbed_iff r lib fd events cb).symm
    (@instDecidableAnd _ _ inferInstance inferInstance)

/-! ## The listener -/

/-- What the first part of a call does. -/
inductive Accepts (r : Reactor Cb) (lib : Libevent) (events : BitVec 16) (cb : Option Cb) :
    Bool × Reactor Cb → Prop
  | skips (hskip : ¬ WantsAccept events ∨ r.acceptCallback ≠ none) :
      Accepts r lib events cb (true, r)
  | listens (hwants : WantsAccept events) (hnone : r.acceptCallback = none)
      (hnew : lib.listenerNew = true) :
      Accepts r lib events cb (true, { r with acceptCallback := some cb, listener := true })
  | fails (hwants : WantsAccept events) (hnone : r.acceptCallback = none)
      (hnew : lib.listenerNew = false) :
      Accepts r lib events cb (false, { r with acceptCallback := some cb, listener := false })

theorem accepts (r : Reactor Cb) (lib : Libevent) (events : BitVec 16) (cb : Option Cb) :
    Accepts r lib events cb (r.addAccept lib events cb) := by
  unfold addAccept
  split_ifs with hboth
  · cases hnew : lib.listenerNew with
    | true => exact .listens hboth.1 hboth.2 hnew
    | false => exact .fails hboth.1 hboth.2 hnew
  · refine .skips ?_
    by_cases hwants : WantsAccept events
    · exact .inr fun hnone => hboth ⟨hwants, hnone⟩
    · exact .inl hwants

/-! ## One direction -/

/-- What the part of a call for one direction does. -/
inductive AddsDirection (r : Reactor Cb) (lib : Libevent) (d : Direction) (fd : ℤ)
    (events : BitVec 16) (cb : Option Cb) : Bool × Reactor Cb → Prop
  | skips (hskip : ¬ Wants events d) : AddsDirection r lib d fd events cb (true, r)
  | arms (hwants : Wants events d) (hok : r.AddSucceeds lib fd d) :
      AddsDirection r lib d fd events cb (true, r.setSlot fd d ⟨some true, cb⟩)
  | fails (hwants : Wants events d) (hnot : ¬ r.AddSucceeds lib fd d) (slot : EventSlot Cb)
      (hslot : slot = r.slots fd d ∨
        (r.slots fd d).event = none ∧ slot = ⟨some false, (r.slots fd d).callback⟩) :
      AddsDirection r lib d fd events cb (false, r.setSlot fd d slot)

theorem addsDirection (r : Reactor Cb) (lib : Libevent) (d : Direction) (fd : ℤ)
    (events : BitVec 16) (cb : Option Cb) :
    AddsDirection r lib d fd events cb (r.addDirection lib d fd events cb) := by
  unfold addDirection
  by_cases hwants : Wants events d
  · rw [if_pos hwants]
    cases hevent : (r.slots fd d).event with
    | none =>
        cases hnew : lib.eventNew d with
        | false =>
            rw [EventSlot.add, hevent]
            refine .fails hwants (fun hok => ?_) _ (.inl rfl)
            simpa [hnew] using hok.1 hevent
        | true =>
            cases hadd : lib.eventAdd d with
            | false =>
                rw [EventSlot.add, hevent]
                refine .fails hwants (fun hok => ?_) _ (.inr ⟨hevent, rfl⟩)
                simpa [hadd] using hok.2
            | true =>
                rw [EventSlot.add, hevent]
                exact .arms hwants ⟨fun _ => hnew, hadd⟩
    | some pending =>
        cases hadd : lib.eventAdd d with
        | false =>
            rw [EventSlot.add, hevent]
            refine .fails hwants (fun hok => ?_) _ (.inl rfl)
            simpa [hadd] using hok.2
        | true =>
            rw [EventSlot.add, hevent]
            exact .arms hwants ⟨fun hnone => absurd (hevent.symm.trans hnone) nofun, hadd⟩
  · rw [if_neg hwants]
    exact .skips hwants

theorem armed_setSlot (r : Reactor Cb) (fd : ℤ) (d : Direction) (slot : EventSlot Cb)
    (fd' : ℤ) (d' : Direction) :
    (r.setSlot fd d slot).armed fd' d' =
      if fd' = fd ∧ d' = d then
        if slot.event = some true then some slot.callback else none
      else r.armed fd' d' := by
  unfold armed
  rw [setSlot_slots]
  split_ifs <;> rfl

/-- A direction that fails leaves the same events armed. -/
theorem armed_setSlot_of_fails {r : Reactor Cb} {fd : ℤ} {d : Direction} {slot : EventSlot Cb}
    (hslot : slot = r.slots fd d ∨
      (r.slots fd d).event = none ∧ slot = ⟨some false, (r.slots fd d).callback⟩)
    (fd' : ℤ) (d' : Direction) : (r.setSlot fd d slot).armed fd' d' = r.armed fd' d' := by
  rw [armed_setSlot]
  split_ifs with hsame hpending
  · obtain ⟨rfl, rfl⟩ := hsame
    rcases hslot with rfl | ⟨-, rfl⟩
    · rw [armed, if_pos hpending]
    · simp at hpending
  · obtain ⟨rfl, rfl⟩ := hsame
    rcases hslot with rfl | ⟨hnone, -⟩
    · rw [armed, if_neg hpending]
    · rw [armed, hnone, if_neg nofun]
  · rfl

/-- What a call does behind the listener. -/
inductive AddsDirections (r : Reactor Cb) (lib : Libevent) (fd : ℤ) (events : BitVec 16)
    (cb : Option Cb) : Bool × Reactor Cb → Prop
  | all (r' : Reactor Cb) (hlisten : r'.listening = r.listening)
      (hok : ∀ d, Wants events d → r.AddSucceeds lib fd d)
      (harmed : ∀ d, Wants events d → r'.armed fd d = some cb) :
      AddsDirections r lib fd events cb (true, r')
  | fails (r' : Reactor Cb) (hlisten : r'.listening = r.listening)
      (haccept : r'.acceptCallback = r.acceptCallback) (d : Direction) (hwants : Wants events d)
      (hnot : ¬ r.AddSucceeds lib fd d)
      (hsame : (∀ fd' d', r'.armed fd' d' = r.armed fd' d') ↔
        (Wants events .read → Wants events .write → r.AddSucceeds lib fd .read →
          ¬ r.AddSucceeds lib fd .write → r.armed fd .read = some cb)) :
      AddsDirections r lib fd events cb (false, r')

/-- The part of `addEventHandler` behind the listener. -/
def addDirections (r : Reactor Cb) (lib : Libevent) (fd : ℤ) (events : BitVec 16)
    (cb : Option Cb) : Bool × Reactor Cb :=
  match r.addDirection lib .read fd events cb with
  | (false, r) => (false, r)
  | (true, r) => r.addDirection lib .write fd events cb

theorem addSucceeds_setSlot_write (r : Reactor Cb) (lib : Libevent) (fd : ℤ)
    (slot : EventSlot Cb) :
    (r.setSlot fd .read slot).AddSucceeds lib fd .write ↔ r.AddSucceeds lib fd .write := by
  rw [AddSucceeds, setSlot_slots, if_neg (by simp)]
  rfl

theorem forall_wants {events : BitVec 16} {p : Direction → Prop}
    (hread : Wants events .read → p .read) (hwrite : Wants events .write → p .write)
    (d : Direction) (hd : Wants events d) : p d := by
  cases d with
  | read => exact hread hd
  | write => exact hwrite hd

theorem addsDirections (r : Reactor Cb) (lib : Libevent) (fd : ℤ) (events : BitVec 16)
    (cb : Option Cb) :
    AddsDirections r lib fd events cb (r.addDirections lib fd events cb) := by
  unfold addDirections
  have hread := addsDirection r lib .read fd events cb
  generalize r.addDirection lib .read fd events cb = out at hread
  cases hread with
  | fails hwants hnot slot hslot =>
      refine .fails _ rfl rfl .read hwants hnot (iff_of_true (armed_setSlot_of_fails hslot) ?_)
      exact fun _ _ hok => absurd hok hnot
  | skips hskip =>
      have hwrite := addsDirection r lib .write fd events cb
      change AddsDirections r lib fd events cb (r.addDirection lib .write fd events cb)
      generalize r.addDirection lib .write fd events cb = out at hwrite
      cases hwrite with
      | skips hskip' =>
          refine .all _ rfl (forall_wants ?_ ?_) (forall_wants ?_ ?_)
          · exact fun hread => absurd hread hskip
          · exact fun hwrite => absurd hwrite hskip'
          · exact fun hread => absurd hread hskip
          · exact fun hwrite => absurd hwrite hskip'
      | arms hwants hok =>
          refine .all _ rfl (forall_wants ?_ fun _ => hok) (forall_wants ?_ fun _ => ?_)
          · exact fun hread => absurd hread hskip
          · exact fun hread => absurd hread hskip
          · rw [armed_setSlot, if_pos ⟨rfl, rfl⟩, if_pos rfl]
      | fails hwants hnot slot hslot =>
          refine .fails _ rfl rfl .write hwants hnot
            (iff_of_true (armed_setSlot_of_fails hslot) ?_)
          exact fun hread => absurd hread hskip
  | arms hread hok =>
      have hwrite := addsDirection (r.setSlot fd .read ⟨some true, cb⟩) lib .write fd events cb
      change AddsDirections r lib fd events cb
        ((r.setSlot fd .read ⟨some true, cb⟩).addDirection lib .write fd events cb)
      generalize (r.setSlot fd .read ⟨some true, cb⟩).addDirection lib .write fd events cb = out
        at hwrite
      have harmed : (r.setSlot fd .read ⟨some true, cb⟩).armed fd .read = some cb := by
        rw [armed_setSlot, if_pos ⟨rfl, rfl⟩, if_pos rfl]
      cases hwrite with
      | skips hskip =>
          refine .all _ rfl (forall_wants (fun _ => hok) ?_) (forall_wants (fun _ => harmed) ?_)
          · exact fun hwrite => absurd hwrite hskip
          · exact fun hwrite => absurd hwrite hskip
      | arms hwants hok' =>
          refine .all _ rfl (forall_wants (fun _ => hok) fun _ => ?_)
            (forall_wants (fun _ => ?_) fun _ => ?_)
          · exact (addSucceeds_setSlot_write r lib fd _).mp hok'
          · rw [armed_setSlot, if_neg (by simp), harmed]
          · rw [armed_setSlot, if_pos ⟨rfl, rfl⟩, if_pos rfl]
      | fails hwants hnot slot hslot =>
          rw [addSucceeds_setSlot_write] at hnot
          refine .fails _ rfl rfl .write hwants hnot ⟨fun hsame _ _ _ _ => ?_, fun hbefore => ?_⟩
          · rw [← hsame fd .read, armed_setSlot_of_fails hslot, harmed]
          · intro fd' d'
            rw [armed_setSlot_of_fails hslot, armed_setSlot]
            split_ifs with hboth hpending
            · rw [hboth.1, hboth.2, hbefore hread hwants hok hnot]
            · exact absurd rfl hpending
            · rfl

/-! ## The whole call -/

/-- What a call does. -/
inductive AddsAll (r : Reactor Cb) (lib : Libevent) (fd : ℤ) (events : BitVec 16)
    (cb : Option Cb) : Bool × Reactor Cb → Prop
  | listenerFails (hwants : WantsAccept events) (hnone : r.acceptCallback = none)
      (hnew : lib.listenerNew = false) :
      AddsAll r lib fd events cb (false, { r with acceptCallback := some cb, listener := false })
  | listens (hwants : WantsAccept events) (hnone : r.acceptCallback = none)
      (hnew : lib.listenerNew = true) (out : Bool × Reactor Cb)
      (h : AddsDirections { r with acceptCallback := some cb, listener := true } lib fd events cb
        out) : AddsAll r lib fd events cb out
  | skips (hskip : ¬ WantsAccept events ∨ r.acceptCallback ≠ none) (out : Bool × Reactor Cb)
      (h : AddsDirections r lib fd events cb out) : AddsAll r lib fd events cb out

theorem addsAll (r : Reactor Cb) (lib : Libevent) (fd : ℤ) (events : BitVec 16)
    (cb : Option Cb) : AddsAll r lib fd events cb (r.addEventHandler lib fd events cb) := by
  rw [addEventHandler]
  have haccept := accepts r lib events cb
  generalize r.addAccept lib events cb = out at haccept
  cases haccept with
  | skips hskip => exact .skips hskip _ (addsDirections r lib fd events cb)
  | listens hwants hnone hnew =>
      exact .listens hwants hnone hnew _ (addsDirections _ lib fd events cb)
  | fails hwants hnone hnew => exact .listenerFails hwants hnone hnew

/-- A call in which nothing fails arms everything, unless another listener, or the
rest of one that failed, is in the way. -/
theorem retry_armedWith_iff (r : Reactor Cb) (fd : ℤ) (events : BitVec 16) (cb : Option Cb) :
    (r.addEventHandler .succeeds fd events cb).1 = true ∧
      ((r.addEventHandler .succeeds fd events cb).2.ArmedWith fd events cb ↔
        (WantsAccept events → r.listening = some cb ∨ r.acceptCallback = none)) := by
  have hsucceeds : ∀ (r : Reactor Cb) d, r.AddSucceeds .succeeds fd d := fun _ _ =>
    ⟨fun _ => rfl, rfl⟩
  have hall := addsAll r .succeeds fd events cb
  generalize r.addEventHandler .succeeds fd events cb = out at hall
  cases hall with
  | listenerFails hwants hnone hnew => exact absurd hnew (by decide)
  | listens hwants hnone hnew out h =>
      cases h with
      | all r' hlisten hok harmed =>
          exact ⟨rfl, iff_of_true ⟨fun _ => hlisten, harmed⟩ fun _ => .inr hnone⟩
      | fails r' hlisten haccept d hd hnot => exact absurd (hsucceeds _ d) hnot
  | skips hskip out h =>
      cases h with
      | all r' hlisten hok harmed =>
          refine ⟨rfl, fun h hwants => .inl (hlisten ▸ h.1 hwants),
            fun h => ⟨fun hwants => ?_, harmed⟩⟩
          rcases h hwants with hlistening | hnone
          · exact hlisten.trans hlistening
          · exact absurd hnone (hskip.resolve_left (not_not.mpr hwants))
      | fails r' hlisten haccept d hd hnot => exact absurd (hsucceeds _ d) hnot

theorem listening_of_none {r : Reactor Cb} (hnone : r.acceptCallback = none) :
    r.listening = none := by
  rw [listening, hnone]
  split_ifs <;> rfl

theorem tellsTruth_iff_undisturbed (r : Reactor Cb) (lib : Libevent) (fd : ℤ)
    (events : BitVec 16) (cb : Option Cb) :
    r.TellsTruth lib fd events cb ↔ r.Undisturbed lib fd events cb := by
  have hall := addsAll r lib fd events cb
  unfold TellsTruth
  generalize r.addEventHandler lib fd events cb = out at hall
  cases hall with
  | listenerFails hwants hnone hnew =>
      refine iff_of_false ?_ ?_
      · rintro ⟨-, hfalse⟩
        obtain ⟨-, -, hretry⟩ := hfalse rfl
        rcases (retry_armedWith_iff _ fd events cb).2.mp hretry hwants with hlistening | haccept
        · exact absurd hlistening nofun
        · exact absurd haccept nofun
      · intro h
        rcases h.accept hwants with hlistening | ⟨-, hnew', -⟩
        · rw [listening_of_none hnone] at hlistening
          exact absurd hlistening nofun
        · simp [hnew] at hnew'
  | listens hwants hnone hnew out h =>
      cases h with
      | all r' hlisten hok harmed =>
          refine iff_of_true ⟨fun _ => ⟨fun _ => hlisten, harmed⟩, nofun⟩ ⟨fun _ => ?_, ?_⟩
          · exact .inr ⟨hnone, hnew, hok⟩
          · exact fun _ hwrite _ hnot => absurd (hok .write hwrite) hnot
      | fails r' hlisten haccept d hd hnot =>
          refine iff_of_false ?_ ?_
          · rintro ⟨-, hfalse⟩
            obtain ⟨⟨hsame, -⟩, -⟩ := hfalse rfl
            rw [hlisten, listening_of_none hnone] at hsame
            exact absurd hsame nofun
          · intro h
            rcases h.accept hwants with hlistening | ⟨-, -, hok⟩
            · rw [listening_of_none hnone] at hlistening
              exact absurd hlistening nofun
            · exact hnot (hok d hd)
  | skips hskip out h =>
      have hretained : (WantsAccept events → r.listening = some cb ∨ r.acceptCallback = none) →
          WantsAccept events → r.listening = some cb := fun h hwants =>
        (h hwants).resolve_right (hskip.resolve_left (not_not.mpr hwants))
      cases h with
      | all r' hlisten hok harmed =>
          constructor
          · rintro ⟨htrue, -⟩
            refine ⟨fun hwants => .inl ?_, fun _ hwrite _ hnot => absurd (hok .write hwrite) hnot⟩
            rw [← hlisten]
            exact (htrue rfl).1 hwants
          · intro h
            refine ⟨fun _ => ⟨fun hwants => hlisten.trans ?_, harmed⟩, nofun⟩
            exact hretained (fun hwants => (h.accept hwants).imp_right And.left) hwants
      | fails r' hlisten haccept d hd hnot hsame =>
          have hretry := retry_armedWith_iff r' fd events cb
          rw [hlisten, haccept] at hretry
          constructor
          · rintro ⟨-, hfalse⟩
            obtain ⟨⟨-, harmed⟩, -, hagain⟩ := hfalse rfl
            exact ⟨fun hwants => .inl (hretained (hretry.2.mp hagain) hwants), hsame.mp harmed⟩
          · intro h
            refine ⟨nofun, fun _ => ⟨⟨hlisten, hsame.mpr h.readBeforeWrite⟩, hretry.1, ?_⟩⟩
            exact hretry.2.mpr fun hwants => (h.accept hwants).imp_right And.left

end Reactor

/-! ## Over runs -/

def Call.TellsTruth (r : Reactor Cb) : Call Cb → Prop
  | addEventHandler lib fd events cb => r.TellsTruth lib fd events cb
  | _ => True

def Call.Undisturbed (r : Reactor Cb) : Call Cb → Prop
  | addEventHandler lib fd events cb => r.Undisturbed lib fd events cb
  | _ => True

instance [DecidableEq Cb] (r : Reactor Cb) : (c : Call Cb) → Decidable (c.Undisturbed r)
  | .addEventHandler lib fd events cb =>
      inferInstanceAs (Decidable (r.Undisturbed lib fd events cb))
  | .enableEvent _ _ => inferInstanceAs (Decidable True)
  | .disableEvent _ _ => inferInstanceAs (Decidable True)
  | .removeEventHandler _ _ => inferInstanceAs (Decidable True)
  | .onEvent _ _ => inferInstanceAs (Decidable True)

theorem Call.tellsTruth_iff (r : Reactor Cb) (c : Call Cb) :
    c.TellsTruth r ↔ c.Undisturbed r := by
  cases c with
  | addEventHandler lib fd events cb => exact r.tellsTruth_iff_undisturbed lib fd events cb
  | _ => exact Iff.rfl

/-- Over any calls, with any failures in between, `addEventHandler` tells the truth
and changes nothing when it fails, exactly when each of its calls is undisturbed;
and the same for one more call in the state reached. -/
theorem addEventHandler_tellsTruth_iff {maxFds : ℕ} {cs : List (Call Cb)} {s : Table Cb}
    (hrun : run Table.step (Table.start maxFds) cs = some s) :
    (Along (fun t c => c.TellsTruth t.reactor) Table.step (Table.start maxFds) cs ↔
      Along (fun t c => c.Undisturbed t.reactor) Table.step (Table.start maxFds) cs) ∧
      ∀ lib fd events cb, Call.InTable s.reactor fd →
        (s.reactor.TellsTruth lib fd events cb ↔ s.reactor.Undisturbed lib fd events cb) := by
  refine ⟨along_congr (I := fun _ => True) (fun _ _ _ _ _ => trivial) (fun t c _ _ _ => ?_)
    trivial hrun, fun lib fd events cb _ => s.reactor.tellsTruth_iff_undisturbed lib fd events cb⟩
  exact c.tellsTruth_iff t.reactor

/-- `event_add` fails for the write event. -/
def writeFails : Libevent := ⟨true, fun _ => true, fun d => d = .read⟩

def noListener : Libevent := ⟨false, fun _ => true, fun _ => true⟩

/-- The listener, asked for twice, and both directions of a connection. -/
def registrations : List (Call ℕ) :=
  [.addEventHandler .succeeds 3 eventAccept (some 1),
    .addEventHandler noListener 3 eventAccept (some 1),
    .addEventHandler .succeeds 5 6 (some 2)]

/-- All of it holds, and a further request for both directions that fails for writing
changes nothing. -/
theorem addEventHandler_tellsTruth_iff_registrations :
    ∃ s : Table ℕ, run Table.step (Table.start maxClientNum) registrations = some s ∧
      Along (fun t c => c.TellsTruth t.reactor) Table.step (Table.start maxClientNum)
        registrations ∧
      s.reactor.listening = some (some 1) ∧ s.reactor.armed 5 .read = some (some 2) ∧
      (s.reactor.addEventHandler writeFails 5 6 (some 2)).1 = false ∧
      s.reactor.TellsTruth writeFails 5 6 (some 2) := by
  have hfacts : (run Table.step (Table.start maxClientNum) registrations).map (fun s =>
      (s.reactor.listening, s.reactor.armed 5 .read,
        (s.reactor.addEventHandler writeFails 5 6 (some 2)).1,
        decide (s.reactor.Undisturbed writeFails 5 6 (some 2)),
        decide (Call.InTable s.reactor 5))) =
      some (some (some 1), some (some 2), false, true, true) := by decide +kernel
  obtain ⟨s, hrun, hfacts⟩ := Option.map_eq_some_iff.mp hfacts
  simp only [Prod.mk.injEq, decide_eq_true_eq] at hfacts
  obtain ⟨hlistening, harmed, hfails, hundisturbed, hin⟩ := hfacts
  obtain ⟨hall, hone⟩ := addEventHandler_tellsTruth_iff hrun
  exact ⟨s, hrun, hall.mpr (by decide +kernel), hlistening, harmed, hfails,
    (hone writeFails 5 6 (some 2) hin).mpr hundisturbed⟩

/-- The listener fails, and the retry reports success without one; and a read event
stays armed after the write event has failed. -/
theorem not_tellsTruth_retry :
    (∃ s : Table ℕ, run Table.step (Table.start maxClientNum)
        [.addEventHandler noListener 0 eventAccept (some 1)] = some s ∧
      (s.reactor.addEventHandler .succeeds 0 eventAccept (some 1)).1 = true ∧
      (s.reactor.addEventHandler .succeeds 0 eventAccept (some 1)).2.listening = none ∧
      ¬ s.reactor.TellsTruth .succeeds 0 eventAccept (some 1)) ∧
      ((Reactor.init maxClientNum : Reactor ℕ).addEventHandler writeFails 5 6 (some 1)).1 = false ∧
      ((Reactor.init maxClientNum : Reactor ℕ).addEventHandler writeFails 5 6 (some 1)).2.armed 5
        .read = some (some 1) ∧
      ¬ (Reactor.init maxClientNum : Reactor ℕ).TellsTruth writeFails 5 6 (some 1) := by
  refine ⟨⟨_, rfl, rfl, rfl, ?_⟩, by decide, by decide, ?_⟩
  · rintro ⟨htrue, -⟩
    exact absurd ((htrue rfl).1 (by decide)) nofun
  · rintro ⟨-, hfalse⟩
    obtain ⟨⟨-, hsame⟩, -⟩ := hfalse (by decide)
    exact absurd (hsame 5 .read) (by decide)

end Banana.LibeventReactor
