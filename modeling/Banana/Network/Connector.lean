import Banana.Library.Transition
import Mathlib.Data.Int.Notation

/-!
# Connector

`asyncConnect` opens a socket and calls back with the descriptor, at once or from
the write event.  The callback is kept in a field of the `Connector`.  A callback
that is not empty and a descriptor are named here by the call of `asyncConnect` they
belong to, and the log holds what has been done with them.  `AnsweredOnce` is what a caller may
expect of its call, and `Answerable` says which calls can be answered so.
-/

namespace Banana

open Transition

/-- What `connect` on the new socket does. -/
inductive Connector.ConnectResult
  | ok
  | inProgress
  | error
  deriving DecidableEq

inductive Connector.Ret
  | connectOk
  | connecting
  | connectErr

/-- The outcomes of the calls that `asyncConnect` makes. -/
structure Connector.Outcome where
  socket : Bool
  setsockopt : Bool
  connect : List UInt8 → UInt16 → Connector.ConnectResult
  addEventHandler : Bool

inductive Connector.Event
  | opened (call : ℕ)
  | connected (call : ℕ)
  | closed (call : ℕ)
  | answered (call : ℕ) (fd : Option ℕ)
  deriving DecidableEq

/-- The fields of a `Connector`, and behind them the write events that its reactor
waits for. -/
structure Connector where
  connectEventCallback : Bool
  connectCallback : Option ℕ
  calls : ℕ
  armed : List ℕ
  log : List Connector.Event

namespace Connector

def new : Connector := ⟨false, none, 0, [], []⟩

/-- `connectCallback_(fd)`; an empty one throws `std::bad_function_call`. -/
def callback (c : Connector) (fd : Option ℕ) : Option Connector :=
  c.connectCallback.map fun call => { c with log := c.log ++ [.answered call fd] }

/-- `close`, which does nothing with the descriptor -1. -/
def close (c : Connector) : Option ℕ → Connector
  | some fd => { c with log := c.log ++ [.closed fd] }
  | none => c

def destroy (c : Connector) : Connector :=
  { c with connectEventCallback := false }

/-- `connectCallback_(fd); _destroy();`.  An exception leaves it before `_destroy`; a run
goes on after it, as when the caller catches it. -/
def callbackAndDestroy (c : Connector) (fd : Option ℕ) : Connector :=
  ((c.callback fd).map destroy).getD c

/-- The block of system calls: `ret`, `sockFd` and the state behind it. -/
def connectSocket (c : Connector) (net : Outcome) (ip : List UInt8) (port : UInt16)
    (call : ℕ) : Ret × Option ℕ × Connector :=
  if net.socket then
    let c := { c with log := c.log ++ [.opened call] }
    if net.setsockopt then
      match net.connect ip port with
      | .ok => (.connectOk, some call, { c with log := c.log ++ [.connected call] })
      | .inProgress => (.connecting, some call, c)
      | .error => (.connectErr, some call, c)
    else (.connectErr, some call, c)
  else (.connectErr, none, c)

/-- The result of `addEventHandler` is not looked at. -/
def addEventHandler (c : Connector) (net : Outcome) (sockFd : Option ℕ) : Connector :=
  if net.addEventHandler then { c with armed := c.armed ++ sockFd.toList } else c

/-- `connectCallback` says whether the callback holds a function. -/
def asyncConnect (c : Connector) (net : Outcome) (ip : List UInt8) (port : UInt16)
    (connectCallback : Bool) : Connector :=
  let call := c.calls
  let c := { c with calls := c.calls + 1 }
  if ip.length < 7 ∨ ip.length > 15 then c
  else
    let c := { c with
      connectEventCallback := true
      connectCallback := if connectCallback then some call else none }
    match c.connectSocket net ip port call with
    | (.connectErr, sockFd, c) => (c.close sockFd).callbackAndDestroy none
    | (.connecting, sockFd, c) => c.addEventHandler net sockFd
    | (.connectOk, sockFd, c) => c.callbackAndDestroy sockFd

/-- `getsockopt` fails, or gives the error of the connection. -/
def onConnectEvent (c : Connector) (fd : ℕ) (soError : Option ℤ) : Connector :=
  let err := soError.getD (-1)
  if err ≠ 0 then (c.close (some fd)).callbackAndDestroy none
  else
    let c := { c with log := c.log ++ [Event.connected fd] }
    c.callbackAndDestroy (some fd)

inductive Action
  | asyncConnect (net : Outcome) (ip : List UInt8) (port : UInt16) (connectCallback : Bool)
  | onConnectEvent (fd : ℕ) (soError : Option ℤ)

def step (c : Connector) : Action → Option Connector
  | .asyncConnect net ip port connectCallback =>
      some (c.asyncConnect net ip port connectCallback)
  | .onConnectEvent fd soError =>
      -- a write event is not persistent: it fires once
      if fd ∈ c.armed then
        some ({ c with armed := c.armed.erase fd }.onConnectEvent fd soError)
      else none

def Action.fires : Action → Bool
  | asyncConnect _ _ _ _ => false
  | onConnectEvent _ _ => true

/-! ## What a caller expects -/

def Event.call : Event → ℕ
  | opened call => call
  | connected call => call
  | closed call => call
  | answered call _ => call

def Event.answerOf (i : ℕ) : Event → Option (Option ℕ)
  | answered call fd => if call = i then some fd else none
  | _ => none

/-- What the callback of call `i` was invoked with. -/
def answersOf (i : ℕ) (log : List Event) : List (Option ℕ) :=
  log.filterMap (Event.answerOf i)

/-- The callback of call `i` was invoked once, with the descriptor of the call if the
connection was made, and otherwise with -1; a socket that the call opened was either
closed once or handed over once. -/
def AnsweredOnce (log : List Event) (i : ℕ) : Prop :=
  answersOf i log = [if .connected i ∈ log then some i else none] ∧
    (.opened i ∈ log → log.count (.closed i) + log.count (.answered i (some i)) = 1)

instance (log : List Event) (i : ℕ) : Decidable (AnsweredOnce log i) :=
  inferInstanceAs (Decidable (_ ∧ _))

def IpFits (ip : List UInt8) : Prop := 7 ≤ ip.length ∧ ip.length ≤ 15

instance (ip : List UInt8) : Decidable (IpFits ip) := inferInstanceAs (Decidable (_ ∧ _))

/-- The connection is under way when `connect` returns. -/
def Connecting (net : Outcome) (ip : List UInt8) (port : UInt16) : Prop :=
  net.socket = true ∧ net.setsockopt = true ∧ net.connect ip port = .inProgress

instance (net : Outcome) (ip : List UInt8) (port : UInt16) : Decidable (Connecting net ip port) :=
  inferInstanceAs (Decidable (_ ∧ _ ∧ _))

/-- The condition on a call: the callback is not empty, the text has the length of an
address, no earlier call waits for its event, and the event of this one can be registered
if it is needed. -/
def Answerable (c : Connector) : Action → Prop
  | .asyncConnect net ip port connectCallback =>
      connectCallback = true ∧ IpFits ip ∧ c.armed = [] ∧
        (Connecting net ip port → net.addEventHandler = true)
  | .onConnectEvent _ _ => True

instance (c : Connector) : ∀ a, Decidable (Answerable c a)
  | .asyncConnect _ _ _ _ => inferInstanceAs (Decidable (_ ∧ _ ∧ _ ∧ _))
  | .onConnectEvent _ _ => inferInstanceAs (Decidable True)

/-! ## The part of the log about one call -/

def historyOf (i : ℕ) (log : List Event) : List Event :=
  log.filter fun e => e.call = i

theorem historyOf_append (i : ℕ) (log es : List Event) :
    historyOf i (log ++ es) = historyOf i log ++ historyOf i es :=
  List.filter_append ..

theorem historyOf_eq_self {i : ℕ} {es : List Event} (h : ∀ e ∈ es, e.call = i) :
    historyOf i es = es := by
  rw [historyOf, List.filter_eq_self]
  exact fun e he => decide_eq_true (h e he)

theorem historyOf_eq_nil {i : ℕ} {es : List Event} (h : ∀ e ∈ es, e.call ≠ i) :
    historyOf i es = [] := by
  rw [historyOf, List.filter_eq_nil_iff]
  exact fun e he => by simpa using h e he

theorem answersOf_historyOf (i : ℕ) (log : List Event) :
    answersOf i (historyOf i log) = answersOf i log := by
  rw [answersOf, answersOf, historyOf, List.filterMap_filter]
  congr 1
  funext e
  split_ifs with hcall
  · rfl
  · cases e with
    | answered call fd => exact (if_neg fun h => hcall (decide_eq_true h)).symm
    | _ => rfl

theorem answeredOnce_historyOf (i : ℕ) (log : List Event) :
    AnsweredOnce (historyOf i log) i ↔ AnsweredOnce log i := by
  have hmem : ∀ e : Event, e.call = i → (e ∈ historyOf i log ↔ e ∈ log) := fun e he => by
    rw [historyOf, List.mem_filter, and_iff_left (decide_eq_true he)]
  have hcount : ∀ e : Event, e.call = i → (historyOf i log).count e = log.count e :=
    fun e he => List.count_filter (decide_eq_true he)
  unfold AnsweredOnce
  rw [answersOf_historyOf, if_congr (hmem _ rfl) rfl rfl, hmem _ rfl, hcount _ rfl, hcount _ rfl]

/-- What is done for other calls does not matter. -/
theorem answeredOnce_append_others {i : ℕ} {log es : List Event} (h : ∀ e ∈ es, e.call ≠ i) :
    AnsweredOnce (log ++ es) i ↔ AnsweredOnce log i := by
  rw [← answeredOnce_historyOf, historyOf_append, historyOf_eq_nil h, List.append_nil,
    answeredOnce_historyOf]

theorem answeredOnce_append_own {i : ℕ} {log es : List Event} (h : ∀ e ∈ es, e.call = i) :
    AnsweredOnce (log ++ es) i ↔ AnsweredOnce (historyOf i log ++ es) i := by
  rw [← answeredOnce_historyOf, historyOf_append, historyOf_eq_self h]

theorem answersOf_append (i : ℕ) (log es : List Event) :
    answersOf i (log ++ es) = answersOf i log ++ answersOf i es :=
  List.filterMap_append ..

/-! ## What a step does -/

theorem answeredOnce_of_noSocket (i : ℕ) : AnsweredOnce [.answered i none] i := by
  simp [AnsweredOnce, answersOf, Event.answerOf]

theorem answeredOnce_of_fails (i : ℕ) :
    AnsweredOnce [.opened i, .closed i, .answered i none] i := by
  simp [AnsweredOnce, answersOf, Event.answerOf, List.filterMap_cons]

theorem answeredOnce_of_connects (i : ℕ) :
    AnsweredOnce [.opened i, .connected i, .answered i (some i)] i := by
  simp [AnsweredOnce, answersOf, Event.answerOf, List.filterMap_cons]

/-- What the block of system calls does. -/
inductive Sockets (c : Connector) (net : Outcome) (ip : List UInt8) (port : UInt16) (call : ℕ) :
    Ret × Option ℕ × Connector → Prop
  | noSocket (hnow : ¬ Connecting net ip port) :
      Sockets c net ip port call (.connectErr, none, c)
  | fails (hnow : ¬ Connecting net ip port) :
      Sockets c net ip port call
        (.connectErr, some call, { c with log := c.log ++ [.opened call] })
  | connects (hnow : ¬ Connecting net ip port) :
      Sockets c net ip port call
        (.connectOk, some call, { c with log := c.log ++ [.opened call] ++ [.connected call] })
  | waits (hlater : Connecting net ip port) :
      Sockets c net ip port call
        (.connecting, some call, { c with log := c.log ++ [.opened call] })

theorem sockets (c : Connector) (net : Outcome) (ip : List UInt8) (port : UInt16) (call : ℕ) :
    Sockets c net ip port call (c.connectSocket net ip port call) := by
  unfold connectSocket
  cases hsocket : net.socket with
  | false => exact .noSocket fun h => absurd (hsocket.symm.trans h.1) nofun
  | true =>
      cases hsetsockopt : net.setsockopt with
      | false => exact .fails fun h => absurd (hsetsockopt.symm.trans h.2.1) nofun
      | true =>
          cases hconnect : net.connect ip port with
          | ok => exact .connects fun h => absurd (hconnect.symm.trans h.2.2) nofun
          | inProgress => exact .waits ⟨hsocket, hsetsockopt, hconnect⟩
          | error => exact .fails fun h => absurd (hconnect.symm.trans h.2.2) nofun

/-- What one call of `asyncConnect` does. -/
inductive Connects (c : Connector) (net : Outcome) (ip : List UInt8) (port : UInt16) :
    Bool → Connector → Prop
  | refuses (connectCallback : Bool) (hip : ¬ IpFits ip) :
      Connects c net ip port connectCallback { c with calls := c.calls + 1 }
  | answers (hip : IpFits ip) (hnow : ¬ Connecting net ip port) (es : List Event)
      (hown : ∀ e ∈ es, e.call = c.calls) (hes : AnsweredOnce es c.calls) :
      Connects c net ip port true
        ⟨false, some c.calls, c.calls + 1, c.armed, c.log ++ es⟩
  | throws (hip : IpFits ip) (hnow : ¬ Connecting net ip port) (es : List Event)
      (hown : ∀ e ∈ es, e.call = c.calls) (hes : answersOf c.calls es = []) :
      Connects c net ip port false ⟨true, none, c.calls + 1, c.armed, c.log ++ es⟩
  | waits (connectCallback : Bool) (hip : IpFits ip) (hlater : Connecting net ip port)
      (hadd : net.addEventHandler = true) :
      Connects c net ip port connectCallback
        ⟨true, if connectCallback then some c.calls else none, c.calls + 1,
          c.armed ++ [c.calls], c.log ++ [.opened c.calls]⟩
  | forgets (connectCallback : Bool) (hip : IpFits ip) (hlater : Connecting net ip port)
      (hadd : net.addEventHandler = false) :
      Connects c net ip port connectCallback
        ⟨true, if connectCallback then some c.calls else none, c.calls + 1, c.armed,
          c.log ++ [.opened c.calls]⟩

/-- A call that ends at once, with what it has logged before it calls back. -/
theorem connects_now {c : Connector} {net : Outcome} {ip : List UInt8} {port : UInt16}
    (hip : IpFits ip) (hnow : ¬ Connecting net ip port) (es : List Event) (fd : Option ℕ)
    (hown : ∀ e ∈ es, e.call = c.calls) (hnone : answersOf c.calls es = [])
    (hes : AnsweredOnce (es ++ [.answered c.calls fd]) c.calls) (connectCallback : Bool) :
    Connects c net ip port connectCallback
      (callbackAndDestroy ⟨true, if connectCallback then some c.calls else none, c.calls + 1,
        c.armed, c.log ++ es⟩ fd) := by
  cases connectCallback with
  | false => exact .throws hip hnow es hown hnone
  | true =>
      have hall : ∀ e ∈ es ++ [.answered c.calls fd], e.call = c.calls := by
        intro e he
        rcases List.mem_append.mp he with he | he
        · exact hown e he
        · rw [List.mem_singleton.mp he, Event.call]
      have h := Connects.answers (c := c) hip hnow _ hall hes
      rw [← List.append_assoc] at h
      exact h

theorem connects (c : Connector) (net : Outcome) (ip : List UInt8) (port : UInt16)
    (connectCallback : Bool) :
    Connects c net ip port connectCallback (c.asyncConnect net ip port connectCallback) := by
  unfold asyncConnect
  by_cases hip : ip.length < 7 ∨ ip.length > 15
  · rw [if_pos hip]
    refine .refuses connectCallback fun hfits => ?_
    have hlen : 7 ≤ ip.length ∧ ip.length ≤ 15 := hfits
    omega
  · rw [if_neg hip]
    have hfits : IpFits ip := by
      rw [IpFits]
      omega
    have hsocket := sockets ⟨true, if connectCallback then some c.calls else none, c.calls + 1,
      c.armed, c.log⟩ net ip port c.calls
    dsimp only
    generalize connectSocket _ net ip port c.calls = out at hsocket
    cases hsocket with
    | noSocket hnow =>
        have h := connects_now (c := c) hfits hnow [] none (by simp) rfl
          (answeredOnce_of_noSocket c.calls) connectCallback
        rwa [List.append_nil] at h
    | fails hnow =>
        have h := connects_now (c := c) hfits hnow [.opened c.calls, .closed c.calls] none
          (by simp [Event.call]) rfl (answeredOnce_of_fails c.calls) connectCallback
        simpa [close] using h
    | connects hnow =>
        have h := connects_now (c := c) hfits hnow [.opened c.calls, .connected c.calls] (some c.calls)
          (by simp [Event.call]) rfl (answeredOnce_of_connects c.calls) connectCallback
        simpa using h
    | waits hlater =>
        change Connects c net ip port connectCallback (addEventHandler _ net (some c.calls))
        cases hadd : net.addEventHandler with
        | false =>
            rw [addEventHandler, hadd]
            exact .forgets connectCallback hfits hlater hadd
        | true =>
            rw [addEventHandler, hadd]
            exact .waits connectCallback hfits hlater hadd

/-- What a write event does with the descriptor, and what it calls back with. -/
def outcomeOf (fd : ℕ) (soError : Option ℤ) : Event × Option ℕ :=
  if soError = some 0 then (.connected fd, some fd) else (.closed fd, none)

/-- What a write event adds to the log when the stored callback is that of `call`, or empty. -/
def eventsOf (call : Option ℕ) (fd : ℕ) (soError : Option ℤ) : List Event :=
  [(outcomeOf fd soError).1] ++
    (call.map fun call => .answered call (outcomeOf fd soError).2).toList

theorem onConnectEvent_eq (c : Connector) (fd : ℕ) (soError : Option ℤ) :
    c.onConnectEvent fd soError =
      { c with
        connectEventCallback := c.connectEventCallback && c.connectCallback.isNone
        log := c.log ++ eventsOf c.connectCallback fd soError } := by
  unfold onConnectEvent eventsOf outcomeOf
  by_cases hok : soError = some 0
  · rw [if_pos hok, if_neg (by simp [hok])]
    cases c.connectCallback <;> simp [callbackAndDestroy, callback, destroy]
  · have herr : soError.getD (-1) ≠ 0 := by
      cases soError with
      | none => decide
      | some err => simpa using hok
    rw [if_neg hok, if_pos herr]
    cases hcall : c.connectCallback <;> simp [close, callbackAndDestroy, callback, destroy, hcall]

/-! ## Runs -/

/-- The log and the registered events are about calls that were made. -/
structure Fresh (c : Connector) : Prop where
  log : ∀ e ∈ c.log, e.call < c.calls
  armed : ∀ i ∈ c.armed, i < c.calls
  callback : ∀ i, c.connectCallback = some i → i < c.calls

/-- At most one call waits, its callback is the one stored, and every other call has
been answered. -/
structure Good (c : Connector) : Prop where
  waits : c.armed = [] ∨ ∃ i, c.armed = [i] ∧ c.connectCallback = some i ∧
    historyOf i c.log = [.opened i]
  answered : ∀ i < c.calls, i ∉ c.armed → AnsweredOnce c.log i

/-- The callback of call `i` was not invoked and is not stored, any more or ever. -/
structure Lost (c : Connector) (i : ℕ) : Prop where
  made : i < c.calls
  unanswered : answersOf i c.log = []
  dropped : c.connectCallback ≠ some i

/-- The socket of call `i` is open, and nobody knows of it. -/
structure Leaked (c : Connector) (i : ℕ) : Prop where
  made : i < c.calls
  opened : .opened i ∈ c.log
  unarmed : i ∉ c.armed
  unclosed : .closed i ∉ c.log
  kept : .answered i (some i) ∉ c.log

def Bad (c : Connector) : Prop := ∃ i, c.Lost i ∨ c.Leaked i

theorem Lost.not_answeredOnce {c : Connector} {i : ℕ} (h : c.Lost i) :
    ¬ AnsweredOnce c.log i := by
  rintro ⟨hanswers, -⟩
  rw [h.unanswered] at hanswers
  exact absurd hanswers nofun

theorem Leaked.not_answeredOnce {c : Connector} {i : ℕ} (h : c.Leaked i) :
    ¬ AnsweredOnce c.log i := by
  rintro ⟨-, hsocket⟩
  have hone := hsocket h.opened
  rw [List.count_eq_zero.mpr h.unclosed, List.count_eq_zero.mpr h.kept] at hone
  exact absurd hone (by decide)

theorem Bad.not_good {c : Connector} (h : c.Bad) : ¬ c.Good := by
  intro hgood
  obtain ⟨i, hlost | hleaked⟩ := h
  · by_cases hi : i ∈ c.armed
    · rcases hgood.waits with hnone | ⟨k, harmed, hstored, -⟩
      · simp [hnone] at hi
      · rw [harmed, List.mem_singleton] at hi
        exact hlost.dropped (hi ▸ hstored)
    · exact hlost.not_answeredOnce (hgood.answered i hlost.made hi)
  · exact hleaked.not_answeredOnce (hgood.answered i hleaked.made hleaked.unarmed)

theorem fresh_new : new.Fresh :=
  ⟨by simp [new], by simp [new], by simp [new]⟩

theorem good_new : new.Good :=
  ⟨.inl rfl, by simp [new]⟩

theorem Fresh.call_ne {c : Connector} (h : c.Fresh) {e : Event} (he : e ∈ c.log) :
    e.call ≠ c.calls :=
  Nat.ne_of_lt (h.log e he)

/-- What a step does. -/
inductive Steps (c : Connector) : Action → Connector → Prop
  | asyncConnect (net : Outcome) (ip : List UInt8) (port : UInt16) (connectCallback : Bool)
      (t : Connector) (h : Connects c net ip port connectCallback t) :
      Steps c (.asyncConnect net ip port connectCallback) t
  | onConnectEvent (fd : ℕ) (soError : Option ℤ) (hfd : fd ∈ c.armed) (waiting : Bool) :
      Steps c (.onConnectEvent fd soError)
        ⟨waiting, c.connectCallback, c.calls, c.armed.erase fd,
          c.log ++ eventsOf c.connectCallback fd soError⟩

theorem steps {c t : Connector} {a : Action} (ht : step c a = some t) : c.Steps a t := by
  cases a with
  | asyncConnect net ip port connectCallback =>
      rw [← Option.some.inj ht]
      exact .asyncConnect net ip port connectCallback _ (connects c net ip port connectCallback)
  | onConnectEvent fd soError =>
      simp only [step] at ht
      split_ifs at ht with hfd
      rw [← Option.some.inj ht, onConnectEvent_eq]
      exact .onConnectEvent fd soError hfd _

theorem call_outcomeOf (fd : ℕ) (soError : Option ℤ) : (outcomeOf fd soError).1.call = fd := by
  unfold outcomeOf
  split_ifs <;> rfl

theorem call_of_mem_eventsOf {call : Option ℕ} {fd : ℕ} {soError : Option ℤ} {e : Event}
    (he : e ∈ eventsOf call fd soError) : e.call = fd ∨ some e.call = call := by
  rcases List.mem_append.mp he with he | he
  · rw [List.mem_singleton.mp he]
    exact .inl (call_outcomeOf fd soError)
  · obtain ⟨i, rfl, rfl⟩ := Option.map_eq_some_iff.mp (Option.mem_toList.mp he)
    exact .inr rfl

theorem Fresh.step {c t : Connector} {a : Action} (h : c.Fresh) (ht : step c a = some t) :
    t.Fresh := by
  have hlog : ∀ e ∈ c.log, e.call < c.calls + 1 := fun e he => Nat.lt_succ_of_lt (h.log e he)
  have harmed : ∀ i ∈ c.armed, i < c.calls + 1 := fun i hi => Nat.lt_succ_of_lt (h.armed i hi)
  have hnew : ∀ es : List Event, (∀ e ∈ es, e.call = c.calls) →
      ∀ e ∈ c.log ++ es, e.call < c.calls + 1 := by
    intro es hes e he
    rcases List.mem_append.mp he with he | he
    · exact hlog e he
    · exact hes e he ▸ Nat.lt_succ_self _
  have hown : ∀ (connectCallback : Bool) (i : ℕ),
      (if connectCallback then some c.calls else none) = some i → i < c.calls + 1 := by
    intro connectCallback i hi
    split_ifs at hi
    exact Option.some.inj hi ▸ Nat.lt_succ_self _
  cases steps ht with
  | asyncConnect net ip port connectCallback t hconnects =>
      cases hconnects with
      | refuses => exact ⟨hlog, harmed, fun i hi => Nat.lt_succ_of_lt (h.callback i hi)⟩
      | answers _ _ es hes => exact ⟨hnew es hes, harmed, hown true⟩
      | throws _ _ es hes => exact ⟨hnew es hes, harmed, hown false⟩
      | waits =>
          refine ⟨hnew _ (by simp [Event.call]), fun i hi => ?_, hown connectCallback⟩
          rcases List.mem_append.mp hi with hi | hi
          · exact harmed i hi
          · exact List.mem_singleton.mp hi ▸ Nat.lt_succ_self _
      | forgets => exact ⟨hnew _ (by simp [Event.call]), harmed, hown connectCallback⟩
  | onConnectEvent fd soError hfd waiting =>
      refine ⟨fun e he => ?_, fun i hi => h.armed i (List.mem_of_mem_erase hi), h.callback⟩
      rcases List.mem_append.mp he with he | he
      · exact h.log e he
      · rcases call_of_mem_eventsOf he with hevent | hevent
        · exact hevent ▸ h.armed fd hfd
        · exact h.callback _ hevent.symm

theorem answersOf_others {i : ℕ} {es : List Event} (h : ∀ e ∈ es, e.call ≠ i) :
    answersOf i es = [] := by
  rw [← answersOf_historyOf, historyOf_eq_nil h]
  rfl

theorem answersOf_eventsOf {call : Option ℕ} {i : ℕ} (hne : call ≠ some i) (fd : ℕ)
    (soError : Option ℤ) : answersOf i (eventsOf call fd soError) = [] := by
  have hfirst : answersOf i [(outcomeOf fd soError).1] = [] := by
    unfold outcomeOf
    split_ifs <;> rfl
  rw [eventsOf, answersOf_append, hfirst, List.nil_append]
  cases call with
  | none => rfl
  | some call => simp [answersOf, Event.answerOf, show call ≠ i from fun h => hne (h ▸ rfl)]

/-- A callback that was lost is never invoked. -/
theorem Lost.step {c t : Connector} {a : Action} {i : ℕ} (h : c.Lost i)
    (ht : step c a = some t) : t.Lost i := by
  have hne : c.calls ≠ i := Nat.ne_of_gt h.made
  have hnew : ∀ es : List Event, (∀ e ∈ es, e.call = c.calls) → answersOf i (c.log ++ es) = [] :=
    fun es hes => by
      rw [answersOf_append, h.unanswered, answersOf_others fun e he => hes e he ▸ hne]
      rfl
  have hstored : ∀ connectCallback : Bool,
      (if connectCallback then some c.calls else none) ≠ some i := by
    intro connectCallback heq
    split_ifs at heq
    exact hne (Option.some.inj heq)
  cases steps ht with
  | asyncConnect net ip port connectCallback t hconnects =>
      cases hconnects with
      | refuses => exact ⟨Nat.lt_succ_of_lt h.made, h.unanswered, h.dropped⟩
      | answers _ _ es hown => exact ⟨Nat.lt_succ_of_lt h.made, hnew es hown, hstored true⟩
      | throws _ _ es hown => exact ⟨Nat.lt_succ_of_lt h.made, hnew es hown, hstored false⟩
      | waits => exact ⟨Nat.lt_succ_of_lt h.made, hnew _ (by simp [Event.call]), hstored _⟩
      | forgets => exact ⟨Nat.lt_succ_of_lt h.made, hnew _ (by simp [Event.call]), hstored _⟩
  | onConnectEvent fd soError hfd waiting =>
      refine ⟨h.made, ?_, h.dropped⟩
      change answersOf i (c.log ++ eventsOf c.connectCallback fd soError) = []
      rw [answersOf_append, h.unanswered, answersOf_eventsOf h.dropped]
      rfl

/-- A socket that was leaked is never closed or handed over. -/
theorem Leaked.step {c t : Connector} {a : Action} {i : ℕ} (h : c.Leaked i)
    (ht : step c a = some t) : t.Leaked i := by
  have hne : c.calls ≠ i := Nat.ne_of_gt h.made
  have hnew : ∀ es : List Event, (∀ e ∈ es, e.call = c.calls) →
      .closed i ∉ c.log ++ es ∧ .answered i (some i) ∉ c.log ++ es := by
    intro es hes
    have hnot : ∀ e : Event, e.call = i → e ∉ c.log → e ∉ c.log ++ es := by
      intro e he hlog hmem
      rcases List.mem_append.mp hmem with hmem | hmem
      · exact hlog hmem
      · exact hne ((hes e hmem).symm.trans he)
    exact ⟨hnot _ rfl h.unclosed, hnot _ rfl h.kept⟩
  have hopened : ∀ es : List Event, .opened i ∈ c.log ++ es := fun es =>
    List.mem_append_left es h.opened
  cases steps ht with
  | asyncConnect net ip port connectCallback t hconnects =>
      cases hconnects with
      | refuses => exact ⟨Nat.lt_succ_of_lt h.made, h.opened, h.unarmed, h.unclosed, h.kept⟩
      | answers _ _ es hown | throws _ _ es hown =>
          obtain ⟨hclosed, hkept⟩ := hnew es hown
          exact ⟨Nat.lt_succ_of_lt h.made, hopened es, h.unarmed, hclosed, hkept⟩
      | waits =>
          obtain ⟨hclosed, hkept⟩ := hnew [.opened c.calls] (by simp [Event.call])
          refine ⟨Nat.lt_succ_of_lt h.made, hopened _, fun hi => ?_, hclosed, hkept⟩
          rcases List.mem_append.mp hi with hi | hi
          · exact h.unarmed hi
          · exact hne (List.mem_singleton.mp hi).symm
      | forgets =>
          obtain ⟨hclosed, hkept⟩ := hnew [.opened c.calls] (by simp [Event.call])
          exact ⟨Nat.lt_succ_of_lt h.made, hopened _, h.unarmed, hclosed, hkept⟩
  | onConnectEvent fd soError hfd waiting =>
      have hfdi : fd ≠ i := fun heq => h.unarmed (heq ▸ hfd)
      have hnot : .closed i ∉ eventsOf c.connectCallback fd soError ∧
          .answered i (some i) ∉ eventsOf c.connectCallback fd soError := by
        unfold eventsOf outcomeOf
        split_ifs <;> simp [hfdi, hfdi.symm]
      refine ⟨h.made, hopened _, fun hi => h.unarmed (List.mem_of_mem_erase hi), ?_, ?_⟩
      · exact fun hmem => (List.mem_append.mp hmem).elim h.unclosed hnot.1
      · exact fun hmem => (List.mem_append.mp hmem).elim h.kept hnot.2

theorem Bad.step {c t : Connector} {a : Action} (h : c.Bad) (ht : step c a = some t) :
    t.Bad := by
  obtain ⟨i, hlost | hleaked⟩ := h
  · exact ⟨i, .inl (hlost.step ht)⟩
  · exact ⟨i, .inr (hleaked.step ht)⟩

theorem Fresh.historyOf_calls {c : Connector} (h : c.Fresh) : historyOf c.calls c.log = [] :=
  historyOf_eq_nil fun _ he => h.call_ne he

/-- A call that is refused was made in vain. -/
theorem Fresh.lost_refused {c : Connector} (h : c.Fresh) :
    Lost { c with calls := c.calls + 1 } c.calls :=
  ⟨Nat.lt_succ_self _, answersOf_others fun _ he => h.call_ne he,
    fun hstored => absurd (h.callback _ hstored) (Nat.lt_irrefl _)⟩

/-- A call that stores an empty callback is not answered. -/
theorem Fresh.lost_empty {c : Connector} (h : c.Fresh) {es : List Event}
    (hes : answersOf c.calls es = []) (b : Bool) (armed : List ℕ) :
    Lost ⟨b, none, c.calls + 1, armed, c.log ++ es⟩ c.calls := by
  refine ⟨Nat.lt_succ_self _, ?_, nofun⟩
  change answersOf c.calls (c.log ++ es) = []
  rw [answersOf_append, answersOf_others fun _ he => h.call_ne he, hes, List.append_nil]

/-- A call while another waits takes the place of its callback. -/
theorem Good.lost_waiting {c : Connector} (hgood : c.Good) (h : c.Fresh) (hne : c.armed ≠ [])
    {es : List Event} (hes : ∀ e ∈ es, e.call = c.calls) (b : Bool) (armed : List ℕ) :
    Bad ⟨b, some c.calls, c.calls + 1, armed, c.log ++ es⟩ := by
  rcases hgood.waits with hnone | ⟨i, harmed, -, hhistory⟩
  · exact absurd hnone hne
  · have hlt : i < c.calls := h.armed i (by simp [harmed])
    refine ⟨i, .inl ⟨Nat.lt_succ_of_lt hlt, ?_, ?_⟩⟩
    · change answersOf i (c.log ++ es) = []
      have hunanswered : answersOf i c.log = [] := by
        rw [← answersOf_historyOf, hhistory]
        rfl
      rw [answersOf_append, hunanswered,
        answersOf_others fun e he => hes e he ▸ Nat.ne_of_gt hlt]
      rfl
    · exact fun hstored => Nat.ne_of_gt hlt (Option.some.inj hstored)

/-- A call that no other disturbs is answered or waits. -/
theorem Good.connects {c t : Connector} (hgood : c.Good) (h : c.Fresh) (hnone : c.armed = [])
    {net : Outcome} {ip : List UInt8} {port : UInt16} (hip : IpFits ip)
    (hadd : Connecting net ip port → net.addEventHandler = true)
    (hconnects : Connects c net ip port true t) : t.Good := by
  have hothers : ∀ es : List Event, (∀ e ∈ es, e.call = c.calls) → ∀ i < c.calls,
      AnsweredOnce (c.log ++ es) i := by
    intro es hes i hi
    rw [answeredOnce_append_others fun e he => hes e he ▸ Nat.ne_of_gt hi]
    exact hgood.answered i hi (by simp [hnone])
  cases hconnects with
  | refuses _ hnot => exact absurd hip hnot
  | answers _ _ es hown hes =>
      refine ⟨.inl hnone, fun i hi _ => ?_⟩
      rcases Nat.lt_succ_iff_lt_or_eq.mp hi with hlt | rfl
      · exact hothers es hown i hlt
      · change AnsweredOnce (c.log ++ es) c.calls
        rw [answeredOnce_append_own hown, h.historyOf_calls]
        exact hes
  | waits =>
      refine ⟨.inr ⟨c.calls, by simp [hnone], rfl, ?_⟩, fun i hi hnot => ?_⟩
      · change historyOf c.calls (c.log ++ [.opened c.calls]) = _
        rw [historyOf_append, h.historyOf_calls, historyOf_eq_self (by simp [Event.call])]
        rfl
      · rcases Nat.lt_succ_iff_lt_or_eq.mp hi with hlt | rfl
        · exact hothers _ (by simp [Event.call]) i hlt
        · exact absurd (by simp) hnot
  | forgets _ _ hlater hforgot => simp [hadd hlater] at hforgot

theorem answeredOnce_eventsOf (i : ℕ) (soError : Option ℤ) :
    AnsweredOnce ([.opened i] ++ eventsOf (some i) i soError) i := by
  unfold eventsOf outcomeOf
  split_ifs
  · exact answeredOnce_of_connects i
  · exact answeredOnce_of_fails i

/-- The event of the call that waits answers it. -/
theorem Good.onConnectEvent {c : Connector} (hgood : c.Good) {fd : ℕ} (hfd : fd ∈ c.armed)
    (soError : Option ℤ) (waiting : Bool) :
    Good ⟨waiting, c.connectCallback, c.calls, c.armed.erase fd,
      c.log ++ eventsOf c.connectCallback fd soError⟩ := by
  rcases hgood.waits with hnone | ⟨i, harmed, hstored, hhistory⟩
  · simp [hnone] at hfd
  · obtain rfl : fd = i := by simpa [harmed] using hfd
    rw [hstored]
    have hown : ∀ e ∈ eventsOf (some fd) fd soError, e.call = fd := fun e he =>
      (call_of_mem_eventsOf he).elim id Option.some.inj
    refine ⟨.inl (by simp [harmed]), fun i hi _ => ?_⟩
    change AnsweredOnce (c.log ++ eventsOf (some fd) fd soError) i
    by_cases heq : i = fd
    · subst heq
      rw [answeredOnce_append_own hown, hhistory]
      exact answeredOnce_eventsOf i soError
    · rw [answeredOnce_append_others fun e he => hown e he ▸ Ne.symm heq]
      exact hgood.answered i hi (by simpa [harmed] using heq)

/-- A step keeps every call answered exactly when it is `Answerable`. -/
theorem Good.step_iff {c t : Connector} {a : Action} (hgood : c.Good) (h : c.Fresh)
    (ht : step c a = some t) : (Answerable c a → t.Good) ∧ (¬ Answerable c a → t.Bad) := by
  cases steps ht with
  | onConnectEvent fd soError hfd waiting =>
      exact ⟨fun _ => hgood.onConnectEvent hfd soError waiting, fun hnot => absurd trivial hnot⟩
  | asyncConnect net ip port connectCallback t hconnects =>
      refine ⟨?_, fun hnot => ?_⟩
      · rintro ⟨rfl, hip, hnone, hadd⟩
        exact hgood.connects h hnone hip hadd hconnects
      cases hconnects with
      | refuses => exact ⟨c.calls, .inl h.lost_refused⟩
      | answers hip hnow es hown =>
          exact hgood.lost_waiting h (fun hnone => hnot ⟨rfl, hip, hnone, fun hl => absurd hl hnow⟩)
            hown _ _
      | throws _ _ es _ hes => exact ⟨c.calls, .inl (h.lost_empty hes _ _)⟩
      | waits _ hip _ hadd =>
          cases connectCallback with
          | false => exact ⟨c.calls, .inl (h.lost_empty rfl _ _)⟩
          | true =>
              exact hgood.lost_waiting h (fun hnone => hnot ⟨rfl, hip, hnone, fun _ => hadd⟩)
                (by simp [Event.call]) _ _
      | forgets =>
          refine ⟨c.calls, .inr ⟨Nat.lt_succ_self _, by simp, fun hi => ?_, ?_, ?_⟩⟩
          · exact absurd (h.armed _ hi) (Nat.lt_irrefl _)
          · exact fun hmem => h.call_ne (e := .closed c.calls) (by simpa using hmem) rfl
          · exact fun hmem => h.call_ne (e := .answered c.calls (some c.calls))
              (by simpa using hmem) rfl

/-- The registered events can all fire. -/
theorem exists_completion {c : Connector} (h : c.Fresh) :
    ∃ cs w, cs.all Action.fires ∧ run step c cs = some w ∧ w.armed = [] := by
  generalize hn : c.armed.length = n
  induction n generalizing c with
  | zero => exact ⟨[], c, rfl, rfl, List.length_eq_zero_iff.mp hn⟩
  | succ n ih =>
      obtain ⟨fd, hfd⟩ : ∃ fd, fd ∈ c.armed := List.exists_mem_of_length_pos (by omega)
      obtain ⟨t, ht⟩ : ∃ t, step c (.onConnectEvent fd none) = some t := ⟨_, if_pos hfd⟩
      have harmed : t.armed = c.armed.erase fd := by
        cases steps ht with
        | onConnectEvent => rfl
      have hlen : t.armed.length = n := by
        rw [harmed, List.length_erase_of_mem hfd, hn]
        rfl
      obtain ⟨cs, w, hcs, hrun, hw⟩ := ih (h.step ht) hlen
      exact ⟨.onConnectEvent fd none :: cs, w, by simpa [Action.fires] using hcs,
        run_cons_eq_some.mpr ⟨t, ht, hrun⟩, hw⟩

/-- In a run of one `Connector`, when all the events it waits for have fired, every
call has been answered once and every socket is accounted for, exactly when each
call was `Answerable` when it was made. -/
theorem answeredOnce_iff_answerable {as : List Action} {u : Connector}
    (hrun : run step new as = some u) :
    Along Answerable step new as ↔
      ∀ cs w, cs.all Action.fires → run step u cs = some w → w.armed = [] →
        ∀ i < w.calls, AnsweredOnce w.log i := by
  have hI : ∀ (s : Connector) a t, s.Fresh ∧ (s.Good ∨ s.Bad) → step s a = some t →
      t.Fresh ∧ (t.Good ∨ t.Bad) := by
    rintro s a t ⟨hfresh, hgood | hbad⟩ ht
    · refine ⟨hfresh.step ht, ?_⟩
      by_cases hok : Answerable s a
      · exact .inl ((hgood.step_iff hfresh ht).1 hok)
      · exact .inr ((hgood.step_iff hfresh ht).2 hok)
    · exact ⟨hfresh.step ht, .inr (hbad.step ht)⟩
  have hstart : new.Fresh ∧ (new.Good ∨ new.Bad) := ⟨fresh_new, .inl good_new⟩
  rw [along_iff_final (G := Good) hI ?_ ?_ hstart good_new hrun]
  · obtain ⟨hfresh, hor⟩ := run_invariant hI hstart hrun
    constructor
    · intro hgood cs w hcs hw hnone i hi
      have hall : Along Answerable step u cs :=
        along_of_forall (I := fun _ => True) (A := fun a => a.fires) (fun _ _ _ _ _ => trivial)
          (fun s a _ ha => by
            cases a with
            | asyncConnect => exact absurd ha nofun
            | onConnectEvent => trivial) trivial (List.all_eq_true.mp hcs)
      have hend : w.Fresh ∧ w.Good := run_invariant_along (I := fun s => s.Fresh ∧ s.Good)
        (fun s a t hs ha ht => ⟨hs.1.step ht, (hs.2.step_iff hs.1 ht).1 ha⟩) ⟨hfresh, hgood⟩
        hall hw
      exact hend.2.answered i hi (by simp [hnone])
    · intro hall
      refine hor.resolve_right fun hbad => ?_
      obtain ⟨cs, w, hcs, hw, hnone⟩ := exists_completion hfresh
      obtain ⟨-, i, hlost | hleaked⟩ : w.Fresh ∧ w.Bad :=
        run_invariant (I := fun s => s.Fresh ∧ s.Bad)
          (fun s a t hs ht => ⟨hs.1.step ht, hs.2.step ht⟩) ⟨hfresh, hbad⟩ hw
      · exact hlost.not_answeredOnce (hall cs w hcs hw hnone i hlost.made)
      · exact hleaked.not_answeredOnce (hall cs w hcs hw hnone i hleaked.made)
  · rintro s a t ⟨hfresh, hor⟩ ht hgood
    exact hor.resolve_right fun hbad => (hbad.step ht).not_good hgood
  · rintro s a t ⟨hfresh, -⟩ hgood ht
    refine ⟨(hgood.step_iff hfresh ht).1, fun hnext => ?_⟩
    by_contra hnot
    exact ((hgood.step_iff hfresh ht).2 hnot).not_good hnext

def inProgress : Outcome := ⟨true, true, fun _ _ => .inProgress, true⟩

def unregistered : Outcome := ⟨true, true, fun _ _ => .inProgress, false⟩

/-- The address 127.0.0.1. -/
def localhost : List UInt8 := [49, 50, 55, 46, 48, 46, 48, 46, 49]

/-- A connection that is made, and after it one that is refused. -/
def twoConnects : List Action :=
  [.asyncConnect inProgress localhost 8888 true, .onConnectEvent 0 (some 0),
    .asyncConnect inProgress localhost 8888 true, .onConnectEvent 1 (some 111)]

theorem answeredOnce_iff_answerable_twoConnects :
    ∃ u, run step new twoConnects = some u ∧ u.calls = 2 ∧ AnsweredOnce u.log 0 ∧
      AnsweredOnce u.log 1 := by
  obtain ⟨u, hrun, hcalls, hnone⟩ :
      ∃ u, run step new twoConnects = some u ∧ u.calls = 2 ∧ u.armed = [] := ⟨_, rfl, rfl, rfl⟩
  have hall := (answeredOnce_iff_answerable hrun).mp (by decide) [] u rfl rfl hnone
  exact ⟨u, hrun, hcalls, hall 0 (by omega), hall 1 (by omega)⟩

def connectsAtOnce : Outcome := ⟨true, true, fun _ _ => .ok, true⟩

/-- The text ::1 is too short; a second call before the event of the first; an event that
could not be registered; and an empty callback, with a socket that is neither closed nor
handed over. -/
theorem not_answeredOnce_overlap :
    (∃ u, run step new [.asyncConnect inProgress [58, 58, 49] 8888 true] = some u ∧
      u.armed = [] ∧ ¬ AnsweredOnce u.log 0) ∧
      (∃ u, run step new [.asyncConnect inProgress localhost 8888 true,
          .asyncConnect inProgress localhost 8889 true, .onConnectEvent 0 (some 0),
          .onConnectEvent 1 (some 0)] = some u ∧ u.armed = [] ∧ ¬ AnsweredOnce u.log 0) ∧
      (∃ u, run step new [.asyncConnect unregistered localhost 8888 true] = some u ∧
        u.armed = [] ∧ ¬ AnsweredOnce u.log 0) ∧
      ∃ u, run step new [.asyncConnect connectsAtOnce localhost 8888 false] = some u ∧
        u.armed = [] ∧ u.log = [.opened 0, .connected 0] ∧ ¬ AnsweredOnce u.log 0 :=
  ⟨⟨_, rfl, rfl, by decide⟩, ⟨_, rfl, rfl, by decide⟩, ⟨_, rfl, rfl, by decide⟩,
    ⟨_, rfl, rfl, rfl, by decide⟩⟩

end Connector

end Banana
