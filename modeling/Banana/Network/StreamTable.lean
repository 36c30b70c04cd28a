import Banana.Network.AddEventHandler
import Banana.Network.RequestAdmission

/-!
# The streams of one reactor

The event table keeps callbacks that were bound to a raw pointer to a `Stream`, and
finds them by a bare fd number.  Nothing in the table says whether the stream is
still there: the destructor frees the two event objects of its fd before it closes
it, and leaves both callbacks where they are.

Here all the streams of a service share one table, next to the handlers of its
eventfds.  What runs when an event fires belongs to the stream that owns the fd at
that moment, and each stream does what `StreamFields` does alone.  Descriptors are
inside the table.
-/

namespace Banana

open LibeventReactor Transition

namespace LibeventReactor

variable {Cb : Type*}

/-! ## A handler for one direction -/

theorem wants_mask_iff {d d' : Direction} : Wants d.mask d' ↔ d' = d := by
  cases d <;> cases d' <;> decide

theorem addEventHandler_mask (r : Reactor Cb) (lib : Libevent) (fd : ℤ) (d : Direction)
    (cb : Option Cb) :
    r.addEventHandler lib fd d.mask cb = r.addDirection lib d fd d.mask cb := by
  have haccept : r.addAccept lib d.mask cb = (true, r) := by
    refine if_neg fun hboth => hboth.1 ?_
    cases d <;> decide
  have hskip : ∀ (r : Reactor Cb) d', d' ≠ d → r.addDirection lib d' fd d.mask cb = (true, r) :=
    fun r d' hne => if_neg fun hwants => hne (wants_mask_iff.mp hwants)
  rw [Reactor.addEventHandler, haccept]
  cases d with
  | read =>
      rcases hread : r.addDirection lib .read fd Direction.read.mask cb with ⟨ok, r'⟩
      cases ok with
      | false => simp only [hread]
      | true => simp only [hread, hskip r' .write (by decide)]
  | write => simp only [hskip r .read (by decide)]

/-- What is armed after the call, and where there is an event object. -/
theorem addEventHandler_armed (r : Reactor Cb) (lib : Libevent) (fd : ℤ) (d : Direction)
    (cb : Option Cb) (fd' : ℤ) (d' : Direction) :
    ((r.addEventHandler lib fd d.mask cb).2.armed fd' d' =
      if (r.addEventHandler lib fd d.mask cb).1 = true ∧ fd' = fd ∧ d' = d then some cb
      else r.armed fd' d') ∧
    (((r.addEventHandler lib fd d.mask cb).2.slots fd' d').event ≠ none →
      fd' = fd ∨ (r.slots fd' d').event ≠ none) := by
  rw [addEventHandler_mask]
  have hadds := r.addsDirection lib d fd d.mask cb
  generalize r.addDirection lib d fd d.mask cb = out at hadds
  cases hadds with
  | skips hskip => exact absurd (wants_mask_iff.mpr rfl) hskip
  | arms _ _ =>
      refine ⟨?_, fun hevent => ?_⟩
      · rw [Reactor.armed_setSlot]
        simp
      · by_cases hfd : fd' = fd
        · exact .inl hfd
        · rw [setSlot_slots, if_neg fun hsame => hfd hsame.1] at hevent
          exact .inr hevent
  | fails _ _ slot hslot =>
      refine ⟨?_, fun hevent => ?_⟩
      · rw [Reactor.armed_setSlot_of_fails hslot]
        simp
      · by_cases hfd : fd' = fd
        · exact .inl hfd
        · rw [setSlot_slots, if_neg fun hsame => hfd hsame.1] at hevent
          exact .inr hevent

theorem armed_fire (r : Reactor Cb) (fd : ℤ) (d : Direction) (fd' : ℤ) (d' : Direction) :
    (r.setSlot fd d (r.slots fd d).fire).armed fd' d' =
      if fd' = fd ∧ d' = d then none else r.armed fd' d' := by
  rw [Reactor.armed_setSlot]
  refine if_congr Iff.rfl (if_neg ?_) rfl
  cases hevent : (r.slots fd d).event <;> simp [EventSlot.fire, hevent]

theorem armed_of_fire {r : Reactor Cb} {fd fd' : ℤ} {d d' : Direction} {cb : Option Cb}
    (harmed : (r.setSlot fd d (r.slots fd d).fire).armed fd' d' = some cb) :
    r.armed fd' d' = some cb := by
  rw [armed_fire, Option.ite_none_left_eq_some] at harmed
  exact harmed.2

theorem event_fire (r : Reactor Cb) (fd : ℤ) (d : Direction) (fd' : ℤ) (d' : Direction) :
    ((r.setSlot fd d (r.slots fd d).fire).slots fd' d').event ≠ none ↔
      (r.slots fd' d').event ≠ none := by
  rw [setSlot_slots]
  split_ifs with hsame
  · obtain ⟨rfl, rfl⟩ := hsame
    cases hevent : (r.slots fd' d').event <;> simp [EventSlot.fire, hevent]
  · exact Iff.rfl

/-- Both calls of `removeEventHandler` together. -/
theorem removeEventHandlers_slots (r : Reactor Cb) (fd fd' : ℤ) (d : Direction) :
    ((r.removeEventHandler fd eventRead).removeEventHandler fd eventWrite).slots fd' d =
      if fd' = fd then (r.slots fd' d).remove else r.slots fd' d := by
  have hwants : ∀ d', (Wants eventRead d' ↔ d' = .read) ∧ (Wants eventWrite d' ↔ d' = .write) :=
    fun d' => ⟨wants_mask_iff (d := .read), wants_mask_iff (d := .write)⟩
  simp only [Reactor.removeEventHandler, Reactor.onWanted, hwants]
  cases d <;> simp

end LibeventReactor

/-! ## The stream without its flags -/

/-- What a callback of the table is bound to: `_recvOnePack` or `_sendOnePack` of a
stream, or the handler of an eventfd. -/
inductive Handler (κ ω : Type*)
  | onePackCall (this : κ) (d : Direction)
  | onEventFd (call : ω)
  deriving DecidableEq

/-- The members of a `Stream`; what is armed is in the table only. -/
structure StreamObject (Cb : Type*) where
  fd : ℕ
  recvLen : ℤ
  needRecvLen : ℤ
  sendLen : ℤ
  needSendLen : ℤ
  recvStat : StreamStat
  sendStat : StreamStat
  recvBuf : List UInt8
  sendBuf : List UInt8
  recvCompleteCallback : Option Cb
  sendCompleteCallback : Option Cb

namespace StreamObject

variable {κ ω Cb : Type*}

def new (fd : ℕ) : StreamObject Cb where
  fd := fd
  recvLen := 0
  needRecvLen := 0
  sendLen := 0
  needSendLen := 0
  recvStat := .recved
  sendStat := .sended
  recvBuf := List.replicate Stream.defaultBuffLen 0
  sendBuf := List.replicate Stream.defaultBuffLen 0
  recvCompleteCallback := none
  sendCompleteCallback := none

/-- The members together with what is armed. -/
def fields (o : StreamObject Cb) (readPending writePending : Bool) : StreamFields Cb where
  recvLen := o.recvLen
  needRecvLen := o.needRecvLen
  sendLen := o.sendLen
  needSendLen := o.needSendLen
  recvStat := o.recvStat
  sendStat := o.sendStat
  recvBuf := o.recvBuf
  sendBuf := o.sendBuf
  recvCompleteCallback := o.recvCompleteCallback
  sendCompleteCallback := o.sendCompleteCallback
  readPending := readPending
  writePending := writePending

/-- `addEventHandler` with `recvOnePackCall_` or `sendOnePackCall_`. -/
def addOnePack (r : Reactor (Handler κ ω)) (lib : Libevent) (this : κ) (fd : ℕ)
    (d : Direction) : Bool × Reactor (Handler κ ω) :=
  r.addEventHandler lib fd d.mask (some (.onePackCall this d))

variable (r : Reactor (Handler κ ω)) (lib : Libevent) (this : κ)

def asyncRecvBytes (o : StreamObject Cb) (num : NativeInt) :
    Option Cb → Bool × Reactor (Handler κ ω) × StreamObject Cb
  | none => (false, r, o)
  | some cb =>
      if (Stream.defaultBuffLen : ℤ) < num.val ∨ num.val ≤ 0 then (false, r, o)
      else
        match addOnePack r lib this o.fd .read with
        | (added, r) =>
            (added, r, { o with
              recvLen := 0
              needRecvLen := num.val
              recvBuf := Stream.resize o.recvBuf num.val.toNat
              recvCompleteCallback := some cb })

def asyncSendBytes (o : StreamObject Cb) (vecBytes : List UInt8) :
    Option Cb → Bool × Reactor (Handler κ ω) × StreamObject Cb
  | none => (false, r, o)
  | some cb =>
      if (Stream.defaultBuffLen : ℤ) < StreamFields.sendSize vecBytes then (false, r, o)
      else
        match addOnePack r lib this o.fd .write with
        | (added, r) =>
            (added, r, { o with
              sendLen := 0
              needSendLen := StreamFields.sendSize vecBytes
              sendBuf := vecBytes
              sendCompleteCallback := some cb })

def store (o : StreamObject Cb) (bytes : List UInt8) : List UInt8 :=
  o.recvBuf.take o.recvLen.toNat ++ bytes ++ o.recvBuf.drop (o.recvLen.toNat + bytes.length)

/-- `_recvOnePack`, after the table has dropped the event.  The last component is the
call of `recvCompleteCallback_`. -/
def recvOnePack (o : StreamObject Cb) :
    RecvResult → Reactor (Handler κ ω) × StreamObject Cb × Option (StreamStat × List UInt8)
  | .closed => (r, { o with recvStat := .recverr }, some (.recverr, o.recvBuf))
  | .again => ((addOnePack r lib this o.fd .read).2, { o with recvStat := .recving }, none)
  | .error => (r, { o with recvStat := .recverr }, some (.recverr, o.recvBuf))
  | .data bytes =>
      if (bytes.length : ℤ) < o.needRecvLen then
        ((addOnePack r lib this o.fd .read).2, { o with
            recvBuf := o.store bytes
            recvLen := o.recvLen + bytes.length
            needRecvLen := o.needRecvLen - bytes.length
            recvStat := .recving }, none)
      else
        (r, { o with recvBuf := o.store bytes, recvStat := .recved },
          some (.recved, o.store bytes))

def sendOnePack (o : StreamObject Cb) :
    SendResult → Reactor (Handler κ ω) × StreamObject Cb × Option StreamStat
  | .again => ((addOnePack r lib this o.fd .write).2, { o with sendStat := .sending }, none)
  | .error => (r, { o with sendStat := .senderr }, some .senderr)
  | .zero => (r, { o with sendStat := .senderr }, some .senderr)
  | .sent len =>
      if (len : ℤ) < o.needSendLen then
        ((addOnePack r lib this o.fd .write).2, { o with
            sendLen := o.sendLen + len
            needSendLen := o.needSendLen - len
            sendStat := .sending }, none)
      else (r, { o with sendStat := .sended }, some .sended)

/-! ## What a call does to the table -/

/-- The object keeps its fd, and the table is left alone or gets one handler. -/
def Touches (r : Reactor (Handler κ ω)) (lib : Libevent) (this : κ) (d : Direction)
    (o : StreamObject Cb) (r' : Reactor (Handler κ ω)) (o' : StreamObject Cb) : Prop :=
  o'.fd = o.fd ∧ (r' = r ∨ r' = (addOnePack r lib this o.fd d).2)

theorem touches_asyncRecvBytes (o : StreamObject Cb) (num : NativeInt) (cb : Option Cb) :
    Touches r lib this .read o (o.asyncRecvBytes r lib this num cb).2.1
      (o.asyncRecvBytes r lib this num cb).2.2 := by
  cases cb with
  | none => exact ⟨rfl, .inl rfl⟩
  | some cb =>
      rw [asyncRecvBytes]
      split_ifs
      · exact ⟨rfl, .inl rfl⟩
      · exact ⟨rfl, .inr rfl⟩

theorem touches_asyncSendBytes (o : StreamObject Cb) (vecBytes : List UInt8) (cb : Option Cb) :
    Touches r lib this .write o (o.asyncSendBytes r lib this vecBytes cb).2.1
      (o.asyncSendBytes r lib this vecBytes cb).2.2 := by
  cases cb with
  | none => exact ⟨rfl, .inl rfl⟩
  | some cb =>
      rw [asyncSendBytes]
      split_ifs
      · exact ⟨rfl, .inl rfl⟩
      · exact ⟨rfl, .inr rfl⟩

theorem touches_recvOnePack (o : StreamObject Cb) (res : RecvResult) :
    Touches r lib this .read o (o.recvOnePack r lib this res).1
      (o.recvOnePack r lib this res).2.1 := by
  cases res with
  | closed => exact ⟨rfl, .inl rfl⟩
  | error => exact ⟨rfl, .inl rfl⟩
  | again => exact ⟨rfl, .inr rfl⟩
  | data bytes =>
      rw [recvOnePack]
      split_ifs
      · exact ⟨rfl, .inr rfl⟩
      · exact ⟨rfl, .inl rfl⟩

theorem touches_sendOnePack (o : StreamObject Cb) (res : SendResult) :
    Touches r lib this .write o (o.sendOnePack r lib this res).1
      (o.sendOnePack r lib this res).2.1 := by
  cases res with
  | zero => exact ⟨rfl, .inl rfl⟩
  | error => exact ⟨rfl, .inl rfl⟩
  | again => exact ⟨rfl, .inr rfl⟩
  | sent len =>
      rw [sendOnePack]
      split_ifs
      · exact ⟨rfl, .inr rfl⟩
      · exact ⟨rfl, .inl rfl⟩

end StreamObject

/-! ## A service and its table -/

inductive Life (Cb : Type*)
  | unborn
  | live (o : StreamObject Cb)
  | destroyed

/-- A reactor with its streams.  An open fd belongs to somebody else in the process, or
it has been accepted for this service, or it is one of its eventfds, or a stream has
it.  `running` is the callback that the loop is in, and `failed` says that one was
empty, or its stream gone, or its assertion wrong. -/
structure StreamTable (κ ω Cb : Type*) where
  reactor : Reactor (Handler κ ω)
  isOpen : ℕ → Bool
  elsewhere : ℕ → Bool
  accepted : ℕ → Bool
  eventFd : ℕ → Bool
  stream : κ → Life Cb
  running : Option (Handler κ ω)
  failed : Bool

namespace StreamTable

variable {κ ω Cb : Type*}

inductive Action (κ ω Cb : Type*)
  | openElsewhere (fd : ℕ)
  | closeElsewhere (fd : ℕ)
  | accept (fd : ℕ)
  | createEventFd (fd : ℕ)
  | addEventFd (lib : Libevent) (fd : ℕ) (call : ω)
  | newStream (this : κ) (fd : ℕ)
  | asyncRecvBytes (lib : Libevent) (this : κ) (num : NativeInt) (cb : Option Cb)
  | asyncSendBytes (lib : Libevent) (this : κ) (vecBytes : List UInt8) (cb : Option Cb)
  | readable (lib : Libevent) (fd : ℕ) (res : RecvResult)
  | writable (lib : Libevent) (fd : ℕ) (res : SendResult)
  | returns
  | destroy (this : κ)

def start (maxFds : ℕ) (elsewhere : ℕ → Bool) : StreamTable κ ω Cb where
  reactor := .init maxFds
  isOpen := elsewhere
  elsewhere := elsewhere
  accepted := fun _ => false
  eventFd := fun _ => false
  stream := fun _ => .unborn
  running := none
  failed := false

/-- libevent drops the event, and `__onEvent` moves the callback out. -/
def fire (s : StreamTable κ ω Cb) (fd : ℕ) (d : Direction) : StreamTable κ ω Cb :=
  { s with reactor := s.reactor.setSlot fd d (s.reactor.slots fd d).fire }

def mayFire (s : StreamTable κ ω Cb) (fd : ℕ) (d : Direction) : Prop :=
  s.running = none ∧ (s.reactor.slots fd d).event = some true

instance (s : StreamTable κ ω Cb) (fd : ℕ) (d : Direction) : Decidable (s.mayFire fd d) :=
  inferInstanceAs (Decidable (s.running = none ∧ (s.reactor.slots fd d).event = some true))

variable [DecidableEq κ]

def setStream (s : StreamTable κ ω Cb) (this : κ) (l : Life Cb) : StreamTable κ ω Cb :=
  { s with stream := Function.update s.stream this l }

/-- `_recvOnePack` of `this` runs for the fd, if there is such a stream. -/
def onReadable (s : StreamTable κ ω Cb) (lib : Libevent) (fd : ℕ) (res : RecvResult)
    (this : κ) : Option (StreamTable κ ω Cb) :=
  match s.stream this with
  | .live o =>
      if o.fd = fd then
        if (o.fields true true).mayRecv res then
          match o.recvOnePack (s.fire fd .read).reactor lib this res with
          | (r, o', call) =>
              some { (s.fire fd .read).setStream this (.live o') with
                reactor := r
                running := call.map fun _ => .onePackCall this .read }
        else none
      else some { s.fire fd .read with failed := true }
  | _ => some { s.fire fd .read with failed := true }

def onWritable (s : StreamTable κ ω Cb) (lib : Libevent) (fd : ℕ) (res : SendResult)
    (this : κ) : Option (StreamTable κ ω Cb) :=
  match s.stream this with
  | .live o =>
      if o.fd = fd then
        if (o.fields true true).maySend res then
          match o.sendOnePack (s.fire fd .write).reactor lib this res with
          | (r, o', call) =>
              some { (s.fire fd .write).setStream this (.live o') with
                reactor := r
                running := call.map fun _ => .onePackCall this .write }
        else none
      else some { s.fire fd .write with failed := true }
  | _ => some { s.fire fd .write with failed := true }

/-- The destructor of `Stream`. -/
def streamDestructor (s : StreamTable κ ω Cb) (o : StreamObject Cb) : StreamTable κ ω Cb :=
  if 0 < o.fd then
    { s with
      reactor := (s.reactor.removeEventHandler o.fd eventRead).removeEventHandler o.fd eventWrite
      isOpen := Function.update s.isOpen o.fd false }
  else s

/-- Calls come from outside or from inside a running callback; events fire one at a
time.  A connection asserts that its fd is positive. -/
def step (s : StreamTable κ ω Cb) (a : Action κ ω Cb) : Option (StreamTable κ ω Cb) :=
  if s.failed then none
  else
    match a with
    | .openElsewhere fd =>
        if s.isOpen fd = false then
          some { s with
            isOpen := Function.update s.isOpen fd true
            elsewhere := Function.update s.elsewhere fd true }
        else none
    | .closeElsewhere fd =>
        if s.elsewhere fd = true then
          some { s with
            isOpen := Function.update s.isOpen fd false
            elsewhere := Function.update s.elsewhere fd false }
        else none
    | .accept fd =>
        if s.isOpen fd = false ∧ fd < s.reactor.maxFds then
          some { s with
            isOpen := Function.update s.isOpen fd true
            accepted := Function.update s.accepted fd true }
        else none
    | .createEventFd fd =>
        if s.isOpen fd = false ∧ fd < s.reactor.maxFds then
          some { s with
            isOpen := Function.update s.isOpen fd true
            eventFd := Function.update s.eventFd fd true }
        else none
    | .addEventFd lib fd call =>
        if s.eventFd fd = true then
          some { s with
            reactor := (s.reactor.addEventHandler lib fd eventRead (some (.onEventFd call))).2 }
        else none
    | .newStream this fd =>
        match s.stream this with
        | .unborn =>
            if s.accepted fd = true ∧ 0 < fd then
              some { s.setStream this (.live (.new fd)) with
                accepted := Function.update s.accepted fd false }
            else none
        | _ => none
    | .asyncRecvBytes lib this num cb =>
        match s.stream this with
        | .live o =>
            match o.asyncRecvBytes s.reactor lib this num cb with
            | (_, r, o') => some { s.setStream this (.live o') with reactor := r }
        | _ => none
    | .asyncSendBytes lib this vecBytes cb =>
        match s.stream this with
        | .live o =>
            match o.asyncSendBytes s.reactor lib this vecBytes cb with
            | (_, r, o') => some { s.setStream this (.live o') with reactor := r }
        | _ => none
    | .readable lib fd res =>
        if s.mayFire fd .read then
          match (s.reactor.slots fd .read).callback with
          | some (.onePackCall this .read) => s.onReadable lib fd res this
          | some (.onEventFd call) =>
              some { s.fire fd .read with running := some (.onEventFd call) }
          | _ => some { s.fire fd .read with failed := true }
        else none
    | .writable lib fd res =>
        if s.mayFire fd .write then
          match (s.reactor.slots fd .write).callback with
          | some (.onePackCall this .write) => s.onWritable lib fd res this
          | some (.onEventFd call) =>
              some { s.fire fd .write with running := some (.onEventFd call) }
          | _ => some { s.fire fd .write with failed := true }
        else none
    | .returns => if s.running = none then none else some { s with running := none }
    | .destroy this =>
        match s.stream this with
        | .live o => some ((s.streamDestructor o).setStream this .destroyed)
        | _ => none

end StreamTable

/-! ## Whose descriptor it is -/

inductive Owner (κ : Type*)
  | elsewhere
  | accepted
  | eventFd
  | stream (this : κ)
  deriving DecidableEq

namespace StreamTable

variable {κ ω Cb : Type*}

def Owns (s : StreamTable κ ω Cb) (fd : ℕ) : Owner κ → Prop
  | .elsewhere => s.elsewhere fd = true
  | .accepted => s.accepted fd = true
  | .eventFd => s.eventFd fd = true
  | .stream this => ∃ o, s.stream this = .live o ∧ o.fd = fd

/-- The handler is one of the owner's, for this direction. -/
def Serves (s : StreamTable κ ω Cb) (fd : ℕ) (d : Direction) : Handler κ ω → Prop
  | .onePackCall this d' => d' = d ∧ s.Owns fd (.stream this)
  | .onEventFd _ => s.Owns fd .eventFd

/-- The event that the action reports. -/
def Action.fires : Action κ ω Cb → ℕ → Direction → Prop
  | readable _ fd _, fd', d => fd' = fd ∧ d = .read
  | writable _ fd _, fd', d => fd' = fd ∧ d = .write
  | _, _, _ => False

/-! ## Handing a descriptor over -/

section Ownership

variable {s u : StreamTable κ ω Cb}

/-- The owner of one descriptor changes, to `w` or to nobody. -/
structure Hands (s u : StreamTable κ ω Cb) (fd : ℕ) (w : Option (Owner κ)) : Prop where
  owns : ∀ fd' w', u.Owns fd' w' ↔ if fd' = fd then w = some w' else s.Owns fd' w'
  isOpen : u.isOpen = Function.update s.isOpen fd w.isSome

/-- The owners stay. -/
structure Keeps (s u : StreamTable κ ω Cb) : Prop where
  owns : ∀ fd w, u.Owns fd w ↔ s.Owns fd w
  isOpen : u.isOpen = s.isOpen

/-- An open descriptor has one owner, an event object belongs to a stream or to an
eventfd, and what is armed serves the owner of its fd. -/
structure Inv (s : StreamTable κ ω Cb) : Prop where
  sound : s.failed = false
  unique : ∀ fd w w', s.Owns fd w → s.Owns fd w' → w = w'
  isOpen : ∀ fd, s.isOpen fd = true ↔ ∃ w, s.Owns fd w
  positive : ∀ fd this, s.Owns fd (.stream this) → 0 < fd
  event : ∀ (fd : ℤ) d, (s.reactor.slots fd d).event ≠ none →
    ∃ n : ℕ, fd = n ∧ (s.Owns n .eventFd ∨ ∃ this, s.Owns n (.stream this))
  armed : ∀ (fd : ℤ) d cb, s.reactor.armed fd d = some cb →
    ∃ (n : ℕ) (h : Handler κ ω), fd = n ∧ cb = some h ∧ s.Serves n d h

theorem inv_start (maxFds : ℕ) (elsewhere : ℕ → Bool) :
    Inv (start maxFds elsewhere : StreamTable κ ω Cb) where
  sound := rfl
  unique fd w w' hw hw' := by
    cases w <;> cases w' <;> simp_all [Owns, start]
  isOpen fd := by
    constructor
    · exact fun hopen => ⟨.elsewhere, hopen⟩
    · rintro ⟨w, hw⟩
      cases w <;> simp_all [Owns, start]
  positive fd this hown := by simp [Owns, start] at hown
  event fd d hevent := by simp [start, Reactor.init, EventSlot.empty] at hevent
  armed fd d cb harmed := by simp [start, Reactor.init, EventSlot.empty, Reactor.armed] at harmed

theorem serves_congr {fd : ℕ} (howns : ∀ w, u.Owns fd w ↔ s.Owns fd w) (d : Direction)
    (h : Handler κ ω) : u.Serves fd d h ↔ s.Serves fd d h := by
  cases h with
  | onePackCall this d' => exact and_congr_right fun _ => howns _
  | onEventFd call => exact howns .eventFd

theorem event_of_armed {r : Reactor (Handler κ ω)} {fd : ℤ} {d : Direction}
    {cb : Option (Handler κ ω)} (harmed : r.armed fd d = some cb) :
    (r.slots fd d).event ≠ none := by
  rw [Reactor.armed, Option.ite_none_right_eq_some] at harmed
  simp [harmed.1]

/-- No event object is left behind for a descriptor that the table does not serve. -/
theorem Inv.event_eq_none (hs : Inv s) {fd : ℕ}
    (hno : ∀ w, s.Owns fd w → w = .elsewhere ∨ w = .accepted) (d : Direction) :
    (s.reactor.slots fd d).event = none := by
  by_contra hevent
  obtain ⟨n, hn, hown⟩ := hs.event fd d hevent
  obtain rfl := Int.natCast_inj.mp hn
  rcases hown with hown | ⟨this, hown⟩
  · rcases hno _ hown with h | h <;> cases h
  · rcases hno _ hown with h | h <;> cases h

theorem Inv.hands (hs : Inv s) {fd : ℕ} {w : Option (Owner κ)} (h : Hands s u fd w)
    (hsound : u.failed = false) (hpos : ∀ this, w = some (.stream this) → 0 < fd)
    (hslots : ∀ (fd' : ℤ) d, fd' ≠ fd → u.reactor.slots fd' d = s.reactor.slots fd' d)
    (hfree : ∀ d, (u.reactor.slots fd d).event = none) : Inv u := by
  have hother : ∀ {fd' : ℕ}, fd' ≠ fd → ∀ w', u.Owns fd' w' ↔ s.Owns fd' w' := by
    intro fd' hne w'
    rw [h.owns, if_neg hne]
  have hsame : ∀ w', u.Owns fd w' ↔ w = some w' := by
    intro w'
    rw [h.owns, if_pos rfl]
  refine ⟨hsound, fun fd' w₁ w₂ h₁ h₂ => ?_, fun fd' => ?_, fun fd' this hown => ?_,
    fun fd' d hevent => ?_, fun fd' d cb harmed => ?_⟩
  · by_cases hfd : fd' = fd
    · subst hfd
      rw [hsame] at h₁ h₂
      exact Option.some.inj (h₁.symm.trans h₂)
    · rw [hother hfd] at h₁ h₂
      exact hs.unique fd' w₁ w₂ h₁ h₂
  · rw [h.isOpen]
    by_cases hfd : fd' = fd
    · subst hfd
      simp only [Function.update_self, hsame]
      exact Option.isSome_iff_exists
    · rw [Function.update_of_ne hfd, hs.isOpen]
      simp only [hother hfd]
  · by_cases hfd : fd' = fd
    · subst hfd
      exact hpos this ((hsame _).mp hown)
    · exact hs.positive fd' this ((hother hfd _).mp hown)
  · have hne : fd' ≠ fd := by
      rintro rfl
      exact hevent (hfree d)
    rw [hslots fd' d hne] at hevent
    obtain ⟨n, rfl, hown⟩ := hs.event fd' d hevent
    have hn : n ≠ fd := fun hn => hne (by rw [hn])
    refine ⟨n, rfl, ?_⟩
    rcases hown with hown | ⟨this, hown⟩
    · exact .inl ((hother hn _).mpr hown)
    · exact .inr ⟨this, (hother hn _).mpr hown⟩
  · have hne : fd' ≠ fd := by
      rintro rfl
      exact event_of_armed harmed (hfree d)
    rw [Reactor.armed, hslots fd' d hne] at harmed
    obtain ⟨n, h', rfl, rfl, hserves⟩ := hs.armed fd' d cb harmed
    have hn : n ≠ fd := fun hn => hne (by rw [hn])
    exact ⟨n, h', rfl, rfl, (serves_congr (hother hn) d h').mpr hserves⟩

theorem Inv.keeps (hs : Inv s) (h : Keeps s u) (hsound : u.failed = false)
    (hevent : ∀ (fd : ℤ) d, (u.reactor.slots fd d).event ≠ none →
      (s.reactor.slots fd d).event ≠ none ∨
        ∃ n : ℕ, fd = n ∧ (s.Owns n .eventFd ∨ ∃ this, s.Owns n (.stream this)))
    (harmed : ∀ (fd : ℤ) d cb, u.reactor.armed fd d = some cb →
      s.reactor.armed fd d = some cb ∨
        ∃ (n : ℕ) (h : Handler κ ω), fd = n ∧ cb = some h ∧ s.Serves n d h) : Inv u := by
  refine ⟨hsound, fun fd w w' hw hw' => ?_, fun fd => ?_, fun fd this hown => ?_,
    fun fd d hev => ?_, fun fd d cb har => ?_⟩
  · rw [h.owns] at hw hw'
    exact hs.unique fd w w' hw hw'
  · simp only [h.isOpen, h.owns]
    exact hs.isOpen fd
  · exact hs.positive fd this ((h.owns _ _).mp hown)
  · simp only [h.owns]
    exact (hevent fd d hev).elim (hs.event fd d) id
  · obtain ⟨n, h', hn, hcb, hserves⟩ := (harmed fd d cb har).elim (hs.armed fd d cb) id
    exact ⟨n, h', hn, hcb, (serves_congr (h.owns n) d h').mpr hserves⟩

/-- A handler is added for an owner that it serves, on a table that has lost events at
most. -/
theorem Inv.adds (hs : Inv s) (h : Keeps s u) (hsound : u.failed = false)
    {r : Reactor (Handler κ ω)} {fd : ℕ} {d : Direction} {call : Handler κ ω}
    (hevent : ∀ fd' d', (r.slots fd' d').event ≠ none → (s.reactor.slots fd' d').event ≠ none)
    (harmed : ∀ fd' d' cb, r.armed fd' d' = some cb → s.reactor.armed fd' d' = some cb)
    (hserves : s.Serves fd d call) (lib : Libevent)
    (hu : u.reactor = r ∨ u.reactor = (r.addEventHandler lib fd d.mask (some call)).2) :
    Inv u := by
  have hown : s.Owns fd .eventFd ∨ ∃ this, s.Owns fd (.stream this) := by
    cases call with
    | onePackCall this d' => exact .inr ⟨this, hserves.2⟩
    | onEventFd call => exact .inl hserves
  rcases hu with hu | hu
  · exact hs.keeps h hsound (fun fd' d' hev => .inl (hevent fd' d' (hu ▸ hev)))
      fun fd' d' cb har => .inl (harmed fd' d' cb (hu ▸ har))
  · have hadd := addEventHandler_armed r lib fd d (some call)
    refine hs.keeps h hsound (fun fd' d' hev => ?_) fun fd' d' cb har => ?_
    · rw [hu] at hev
      rcases (hadd fd' d').2 hev with rfl | hev
      · exact .inr ⟨fd, rfl, hown⟩
      · exact .inl (hevent fd' d' hev)
    · rw [hu, (hadd fd' d').1] at har
      split_ifs at har with hsame
      · obtain ⟨-, rfl, rfl⟩ := hsame
        exact .inr ⟨fd, call, rfl, (Option.some.inj har).symm, hserves⟩
      · exact .inl (harmed fd' d' cb har)

theorem Inv.not_open (hs : Inv s) {fd : ℕ} (hclosed : s.isOpen fd = false) (w : Owner κ) :
    ¬ s.Owns fd w := by
  intro hw
  rw [(hs.isOpen fd).mpr ⟨w, hw⟩] at hclosed
  cases hclosed

/-- Somebody takes a closed descriptor. -/
theorem Inv.opens (hs : Inv s) {fd : ℕ} (hclosed : s.isOpen fd = false) {w : Owner κ}
    (hw : ∀ this, w ≠ .stream this) (h : Hands s u fd (some w)) (hsound : u.failed = false)
    (hreactor : u.reactor = s.reactor) : Inv u := by
  refine hs.hands h hsound (fun this hthis => absurd (Option.some.inj hthis) (hw this))
    (fun fd' d _ => by rw [hreactor]) fun d => ?_
  rw [hreactor]
  exact hs.event_eq_none (fun w' hw' => absurd hw' (hs.not_open hclosed w')) d

theorem Inv.owns_of_closed (hs : Inv s) {fd : ℕ} (hclosed : s.isOpen fd = false)
    (w : Owner κ) : s.Owns fd w ↔ none = some w :=
  ⟨fun hw => absurd hw (hs.not_open hclosed w), nofun⟩

theorem Inv.owns_iff (hs : Inv s) {fd : ℕ} {w₀ : Owner κ} (howns : s.Owns fd w₀)
    (w : Owner κ) : s.Owns fd w ↔ some w₀ = some w :=
  ⟨fun hw => congrArg some (hs.unique fd _ _ howns hw), fun h => Option.some.inj h ▸ howns⟩

end Ownership

/-! ## Steps -/

variable [DecidableEq κ]

inductive Moves (s : StreamTable κ ω Cb) : Action κ ω Cb → StreamTable κ ω Cb → Prop
  | openElsewhere (fd : ℕ) (hclosed : s.isOpen fd = false) :
      Moves s (.openElsewhere fd) { s with
        isOpen := Function.update s.isOpen fd true
        elsewhere := Function.update s.elsewhere fd true }
  | closeElsewhere (fd : ℕ) (helse : s.elsewhere fd = true) :
      Moves s (.closeElsewhere fd) { s with
        isOpen := Function.update s.isOpen fd false
        elsewhere := Function.update s.elsewhere fd false }
  | accept (fd : ℕ) (hclosed : s.isOpen fd = false) :
      Moves s (.accept fd) { s with
        isOpen := Function.update s.isOpen fd true
        accepted := Function.update s.accepted fd true }
  | createEventFd (fd : ℕ) (hclosed : s.isOpen fd = false) :
      Moves s (.createEventFd fd) { s with
        isOpen := Function.update s.isOpen fd true
        eventFd := Function.update s.eventFd fd true }
  | addEventFd (lib : Libevent) (fd : ℕ) (call : ω) (hfd : s.eventFd fd = true) :
      Moves s (.addEventFd lib fd call) { s with
        reactor := (s.reactor.addEventHandler lib fd eventRead (some (.onEventFd call))).2 }
  | newStream (this : κ) (fd : ℕ) (hunborn : s.stream this = .unborn)
      (haccepted : s.accepted fd = true) (hpos : 0 < fd) :
      Moves s (.newStream this fd) { s.setStream this (.live (.new fd)) with
        accepted := Function.update s.accepted fd false }
  | asyncRecvBytes (lib : Libevent) (this : κ) (num : NativeInt) (cb : Option Cb)
      (o : StreamObject Cb) (hlive : s.stream this = .live o) :
      Moves s (.asyncRecvBytes lib this num cb)
        { s.setStream this (.live (o.asyncRecvBytes s.reactor lib this num cb).2.2) with
          reactor := (o.asyncRecvBytes s.reactor lib this num cb).2.1 }
  | asyncSendBytes (lib : Libevent) (this : κ) (vecBytes : List UInt8) (cb : Option Cb)
      (o : StreamObject Cb) (hlive : s.stream this = .live o) :
      Moves s (.asyncSendBytes lib this vecBytes cb)
        { s.setStream this (.live (o.asyncSendBytes s.reactor lib this vecBytes cb).2.2) with
          reactor := (o.asyncSendBytes s.reactor lib this vecBytes cb).2.1 }
  | recvOnePack (lib : Libevent) (res : RecvResult) (this : κ) (o : StreamObject Cb)
      (hlive : s.stream this = .live o)
      (harmed : s.reactor.armed o.fd .read = some (some (.onePackCall this .read)))
      (hmay : (o.fields true true).mayRecv res = true) :
      Moves s (.readable lib o.fd res)
        { (s.fire o.fd .read).setStream this
            (.live (o.recvOnePack (s.fire o.fd .read).reactor lib this res).2.1) with
          reactor := (o.recvOnePack (s.fire o.fd .read).reactor lib this res).1
          running := (o.recvOnePack (s.fire o.fd .read).reactor lib this res).2.2.map
            fun _ => .onePackCall this .read }
  | sendOnePack (lib : Libevent) (res : SendResult) (this : κ) (o : StreamObject Cb)
      (hlive : s.stream this = .live o)
      (harmed : s.reactor.armed o.fd .write = some (some (.onePackCall this .write)))
      (hmay : (o.fields true true).maySend res = true) :
      Moves s (.writable lib o.fd res)
        { (s.fire o.fd .write).setStream this
            (.live (o.sendOnePack (s.fire o.fd .write).reactor lib this res).2.1) with
          reactor := (o.sendOnePack (s.fire o.fd .write).reactor lib this res).1
          running := (o.sendOnePack (s.fire o.fd .write).reactor lib this res).2.2.map
            fun _ => .onePackCall this .write }
  | onEventFd (a : Action κ ω Cb) (fd : ℕ) (d : Direction) (call : ω) (ha : a.fires fd d)
      (harmed : s.reactor.armed fd d = some (some (.onEventFd call))) :
      Moves s a { s.fire fd d with running := some (.onEventFd call) }
  | misses (a : Action κ ω Cb) (fd : ℕ) (d : Direction) (cb : Option (Handler κ ω))
      (ha : a.fires fd d) (harmed : s.reactor.armed fd d = some cb)
      (hbad : ∀ h, cb = some h → ¬ s.Serves fd d h) :
      Moves s a { s.fire fd d with failed := true }
  | returns (hrunning : s.running ≠ none) : Moves s .returns { s with running := none }
  | destroy (this : κ) (o : StreamObject Cb) (hlive : s.stream this = .live o) :
      Moves s (.destroy this) ((s.streamDestructor o).setStream this .destroyed)

/-- A stream that is gone, or has another fd, is missed. -/
theorem misses_onePackCall {s : StreamTable κ ω Cb} {a : Action κ ω Cb} {fd : ℕ}
    {d : Direction} {this : κ} (ha : a.fires fd d)
    (harmed : s.reactor.armed fd d = some (some (.onePackCall this d)))
    (hgone : ∀ o, s.stream this = .live o → o.fd ≠ fd) :
    Moves s a { s.fire fd d with failed := true } := by
  refine .misses a fd d _ ha harmed fun h hcb hserves => ?_
  obtain rfl := Option.some.inj hcb
  obtain ⟨-, o, hlive, hfd⟩ := hserves
  exact hgone o hlive hfd

theorem moves_of_onReadable {s u : StreamTable κ ω Cb} {lib : Libevent} {fd : ℕ}
    {res : RecvResult} {this : κ}
    (harmed : s.reactor.armed fd .read = some (some (.onePackCall this .read)))
    (h : s.onReadable lib fd res this = some u) : Moves s (.readable lib fd res) u := by
  unfold onReadable at h
  cases hst : s.stream this with
  | live o =>
      simp only [hst] at h
      split_ifs at h with hfd hmay
      · subst hfd
        exact Option.some.inj h ▸ .recvOnePack lib res this o hst harmed hmay
      · refine Option.some.inj h ▸ misses_onePackCall ⟨rfl, rfl⟩ harmed fun o' hlive => ?_
        exact Life.live.inj (hst.symm.trans hlive) ▸ hfd
  | unborn =>
      simp only [hst] at h
      exact Option.some.inj h ▸ misses_onePackCall ⟨rfl, rfl⟩ harmed (by simp [hst])
  | destroyed =>
      simp only [hst] at h
      exact Option.some.inj h ▸ misses_onePackCall ⟨rfl, rfl⟩ harmed (by simp [hst])

theorem moves_of_onWritable {s u : StreamTable κ ω Cb} {lib : Libevent} {fd : ℕ}
    {res : SendResult} {this : κ}
    (harmed : s.reactor.armed fd .write = some (some (.onePackCall this .write)))
    (h : s.onWritable lib fd res this = some u) : Moves s (.writable lib fd res) u := by
  unfold onWritable at h
  cases hst : s.stream this with
  | live o =>
      simp only [hst] at h
      split_ifs at h with hfd hmay
      · subst hfd
        exact Option.some.inj h ▸ .sendOnePack lib res this o hst harmed hmay
      · refine Option.some.inj h ▸ misses_onePackCall ⟨rfl, rfl⟩ harmed fun o' hlive => ?_
        exact Life.live.inj (hst.symm.trans hlive) ▸ hfd
  | unborn =>
      simp only [hst] at h
      exact Option.some.inj h ▸ misses_onePackCall ⟨rfl, rfl⟩ harmed (by simp [hst])
  | destroyed =>
      simp only [hst] at h
      exact Option.some.inj h ▸ misses_onePackCall ⟨rfl, rfl⟩ harmed (by simp [hst])

theorem moves_of_step {s u : StreamTable κ ω Cb} {a : Action κ ω Cb} (h : s.step a = some u) :
    s.failed = false ∧ Moves s a u := by
  have hsound : s.failed = false := by
    cases hfailed : s.failed with
    | false => rfl
    | true => simp [step, hfailed] at h
  refine ⟨hsound, ?_⟩
  rw [step.eq_def, if_neg (by simp [hsound])] at h
  cases a with
  | openElsewhere fd =>
      simp only [Option.ite_none_right_eq_some, Option.some.injEq] at h
      exact h.2 ▸ .openElsewhere fd h.1
  | closeElsewhere fd =>
      simp only [Option.ite_none_right_eq_some, Option.some.injEq] at h
      exact h.2 ▸ .closeElsewhere fd h.1
  | accept fd =>
      simp only [Option.ite_none_right_eq_some, Option.some.injEq] at h
      exact h.2 ▸ .accept fd h.1.1
  | createEventFd fd =>
      simp only [Option.ite_none_right_eq_some, Option.some.injEq] at h
      exact h.2 ▸ .createEventFd fd h.1.1
  | addEventFd lib fd call =>
      simp only [Option.ite_none_right_eq_some, Option.some.injEq] at h
      exact h.2 ▸ .addEventFd lib fd call h.1
  | newStream this fd =>
      cases hst : s.stream this with
      | unborn =>
          simp only [hst, Option.ite_none_right_eq_some, Option.some.injEq] at h
          exact h.2 ▸ .newStream this fd hst h.1.1 h.1.2
      | live o => simp [hst] at h
      | destroyed => simp [hst] at h
  | asyncRecvBytes lib this num cb =>
      cases hst : s.stream this with
      | unborn => simp [hst] at h
      | live o =>
          simp only [hst, Option.some.injEq] at h
          exact h ▸ .asyncRecvBytes lib this num cb o hst
      | destroyed => simp [hst] at h
  | asyncSendBytes lib this vecBytes cb =>
      cases hst : s.stream this with
      | unborn => simp [hst] at h
      | live o =>
          simp only [hst, Option.some.injEq] at h
          exact h ▸ .asyncSendBytes lib this vecBytes cb o hst
      | destroyed => simp [hst] at h
  | readable lib fd res =>
      simp only [Option.ite_none_right_eq_some] at h
      obtain ⟨⟨hidle, hevent⟩, h⟩ := h
      have harmed : s.reactor.armed fd .read = some (s.reactor.slots fd .read).callback :=
        if_pos hevent
      split at h
      · next this hcb =>
          rw [hcb] at harmed
          exact moves_of_onReadable harmed h
      · next call hcb =>
          rw [hcb] at harmed
          exact Option.some.inj h ▸ .onEventFd _ fd .read call ⟨rfl, rfl⟩ harmed
      · next hpack hfd =>
          refine Option.some.inj h ▸ .misses _ fd .read _ ⟨rfl, rfl⟩ harmed fun h' hcb hserves => ?_
          cases h' with
          | onePackCall this d =>
              obtain rfl : d = .read := hserves.1
              exact hpack this hcb
          | onEventFd call => exact hfd call hcb
  | writable lib fd res =>
      simp only [Option.ite_none_right_eq_some] at h
      obtain ⟨⟨hidle, hevent⟩, h⟩ := h
      have harmed : s.reactor.armed fd .write = some (s.reactor.slots fd .write).callback :=
        if_pos hevent
      split at h
      · next this hcb =>
          rw [hcb] at harmed
          exact moves_of_onWritable harmed h
      · next call hcb =>
          rw [hcb] at harmed
          exact Option.some.inj h ▸ .onEventFd _ fd .write call ⟨rfl, rfl⟩ harmed
      · next hpack hfd =>
          refine Option.some.inj h ▸
            .misses _ fd .write _ ⟨rfl, rfl⟩ harmed fun h' hcb hserves => ?_
          cases h' with
          | onePackCall this d =>
              obtain rfl : d = .write := hserves.1
              exact hpack this hcb
          | onEventFd call => exact hfd call hcb
  | returns =>
      simp only [Option.ite_none_left_eq_some, Option.some.injEq] at h
      exact h.2 ▸ .returns h.1
  | destroy this =>
      cases hst : s.stream this with
      | unborn => simp [hst] at h
      | live o =>
          simp only [hst, Option.some.injEq] at h
          exact h ▸ .destroy this o hst
      | destroyed => simp [hst] at h

/-! ## Every step keeps the ownership -/

variable {s u : StreamTable κ ω Cb}

/-- A stream that is changed in place keeps its fd. -/
theorem keeps_of_live {this : κ} {o o' : StreamObject Cb} (hlive : s.stream this = .live o)
    (hfd : o'.fd = o.fd) (hstream : u.stream = Function.update s.stream this (.live o'))
    (hrest : u.elsewhere = s.elsewhere ∧ u.accepted = s.accepted ∧ u.eventFd = s.eventFd)
    (hopen : u.isOpen = s.isOpen) : Keeps s u := by
  obtain ⟨helse, haccepted, heventFd⟩ := hrest
  refine ⟨fun fd w => ?_, hopen⟩
  cases w with
  | elsewhere => rw [Owns, Owns, helse]
  | accepted => rw [Owns, Owns, haccepted]
  | eventFd => rw [Owns, Owns, heventFd]
  | stream k =>
      rw [Owns, Owns, hstream]
      by_cases hk : k = this
      · subst hk
        simp [hlive, hfd]
      · rw [Function.update_of_ne hk]

theorem Inv.touched (hs : Inv s) {this : κ} {o o' : StreamObject Cb}
    (hlive : s.stream this = .live o) {r r' : Reactor (Handler κ ω)} {lib : Libevent}
    {d : Direction} (h : StreamObject.Touches r lib this d o r' o')
    (hevent : ∀ fd' d', (r.slots fd' d').event ≠ none → (s.reactor.slots fd' d').event ≠ none)
    (harmed : ∀ fd' d' cb, r.armed fd' d' = some cb → s.reactor.armed fd' d' = some cb)
    (running : Option (Handler κ ω)) :
    Inv { s.setStream this (.live o') with reactor := r', running := running } :=
  have hserves : s.Serves o.fd d (.onePackCall this d) := ⟨rfl, o, hlive, rfl⟩
  hs.adds (keeps_of_live hlive h.1 rfl ⟨rfl, rfl, rfl⟩ rfl) hs.sound hevent harmed hserves lib h.2

/-- A descriptor with the owner `w₀` gets the owner `w`, and nothing else is written. -/
theorem hands_of_update {fd : ℕ} {w₀ w : Option (Owner κ)}
    (hbefore : ∀ w', s.Owns fd w' ↔ w₀ = some w')
    (hopen : u.isOpen = Function.update s.isOpen fd w.isSome)
    (howns : ∀ fd' w', u.Owns fd' w' ↔
      if fd' = fd ∧ (w₀ = some w' ∨ w = some w') then w = some w' else s.Owns fd' w') :
    Hands s u fd w := by
  refine ⟨fun fd' w' => ?_, hopen⟩
  rw [howns]
  by_cases hfd : fd' = fd
  · subst hfd
    rw [if_pos rfl]
    split_ifs with hw
    · exact Iff.rfl
    · rw [hbefore]
      exact iff_of_false (fun h => hw ⟨rfl, .inl h⟩) fun h => hw ⟨rfl, .inr h⟩
  · rw [if_neg fun h => hfd h.1, if_neg hfd]

theorem Inv.step {a : Action κ ω Cb} (hs : Inv s) (h : s.step a = some u) : Inv u := by
  obtain ⟨-, hmove⟩ := moves_of_step h
  cases hmove with
  | openElsewhere fd hclosed =>
      refine hs.opens hclosed (w := .elsewhere) (by simp)
        (hands_of_update (hs.owns_of_closed hclosed) rfl fun fd' w' => ?_) hs.sound rfl
      cases w' <;> simp [Owns, Function.update_apply, or_iff_not_imp_left]
  | closeElsewhere fd helse =>
      have howns : s.Owns fd .elsewhere := helse
      refine hs.hands (hands_of_update (w := none) (hs.owns_iff howns) rfl fun fd' w' => ?_)
        hs.sound nofun (fun _ _ _ => rfl) fun d => ?_
      · cases w' <;> simp [Owns, Function.update_apply]
      · exact hs.event_eq_none (fun w hw => .inl (hs.unique fd _ _ hw howns)) d
  | accept fd hclosed =>
      refine hs.opens hclosed (w := .accepted) (by simp)
        (hands_of_update (hs.owns_of_closed hclosed) rfl fun fd' w' => ?_) hs.sound rfl
      cases w' <;> simp [Owns, Function.update_apply, or_iff_not_imp_left]
  | createEventFd fd hclosed =>
      refine hs.opens hclosed (w := .eventFd) (by simp)
        (hands_of_update (hs.owns_of_closed hclosed) rfl fun fd' w' => ?_) hs.sound rfl
      cases w' <;> simp [Owns, Function.update_apply, or_iff_not_imp_left]
  | addEventFd lib fd call hfd =>
      have hserves : s.Serves fd .read (.onEventFd call) := hfd
      exact hs.adds ⟨fun _ _ => Iff.rfl, rfl⟩ hs.sound (fun _ _ => id) (fun _ _ _ => id) hserves lib
        (.inr rfl)
  | newStream this fd hunborn haccepted hpos =>
      have howns : s.Owns fd .accepted := haccepted
      have hstays : Function.update s.isOpen fd true = s.isOpen :=
        Function.update_eq_self_iff.mpr ((hs.isOpen fd).mpr ⟨_, howns⟩).symm
      refine hs.hands (hands_of_update (w := some (.stream this)) (hs.owns_iff howns) hstays.symm
        fun fd' w' => ?_) hs.sound (fun _ _ => hpos) (fun _ _ _ => rfl) fun d => ?_
      · cases w' with
        | stream k =>
            by_cases hk : k = this
            · subst hk
              simp [Owns, setStream, StreamObject.new, hunborn, eq_comm]
            · simp [Owns, setStream, hk, Ne.symm hk]
        | _ => simp [Owns, setStream, Function.update_apply]
      · exact hs.event_eq_none (fun w hw => .inr (hs.unique fd _ _ hw howns)) d
  | asyncRecvBytes lib this num cb o hlive =>
      exact hs.touched hlive (StreamObject.touches_asyncRecvBytes _ lib this o num cb)
        (fun _ _ => id) (fun _ _ _ => id) s.running
  | asyncSendBytes lib this vecBytes cb o hlive =>
      exact hs.touched hlive (StreamObject.touches_asyncSendBytes _ lib this o vecBytes cb)
        (fun _ _ => id) (fun _ _ _ => id) s.running
  | recvOnePack lib res this o hlive harmed hmay =>
      exact hs.touched hlive (StreamObject.touches_recvOnePack _ lib this o res)
        (fun fd' d' => (event_fire s.reactor o.fd .read fd' d').mp)
        (fun _ _ _ => armed_of_fire) _
  | sendOnePack lib res this o hlive harmed hmay =>
      exact hs.touched hlive (StreamObject.touches_sendOnePack _ lib this o res)
        (fun fd' d' => (event_fire s.reactor o.fd .write fd' d').mp)
        (fun _ _ _ => armed_of_fire) _
  | onEventFd _ fd d call ha harmed =>
      exact hs.keeps ⟨fun _ _ => Iff.rfl, rfl⟩ hs.sound
        (fun fd' d' hevent => .inl ((event_fire s.reactor fd d fd' d').mp hevent))
        fun _ _ _ har => .inl (armed_of_fire har)
  | misses _ fd d cb ha harmed hbad =>
      obtain ⟨n, h', hn, rfl, hserves⟩ := hs.armed fd d cb harmed
      obtain rfl := Int.natCast_inj.mp hn
      exact absurd hserves (hbad h' rfl)
  | returns hrunning => exact { hs with }
  | destroy this o hlive =>
      have howns : s.Owns o.fd (.stream this) := ⟨o, hlive, rfl⟩
      rw [streamDestructor, if_pos (hs.positive _ _ howns)]
      refine hs.hands (hands_of_update (w := none) (hs.owns_iff howns) rfl fun fd' w' => ?_)
        hs.sound nofun (fun fd' d hne => ?_) fun d => ?_
      · cases w' with
        | stream k =>
            by_cases hk : k = this
            · subst hk
              simp [Owns, setStream, hlive, eq_comm]
            · simp [Owns, setStream, hk, Ne.symm hk]
        | _ => simp [Owns, setStream]
      · exact (removeEventHandlers_slots _ _ _ _).trans (if_neg hne)
      · exact congrArg EventSlot.event ((removeEventHandlers_slots _ _ _ _).trans (if_pos rfl))

theorem inv_of_run {maxFds : ℕ} {elsewhere : ℕ → Bool} {as : List (Action κ ω Cb)}
    (hrun : run StreamTable.step (start maxFds elsewhere) as = some s) : Inv s :=
  run_invariant (fun _ _ _ hs h => hs.step h) (inv_start maxFds elsewhere) hrun

/-- In a run of the streams of a service, with descriptors given out again, handlers
that could not be added, and callbacks of destroyed streams left in the table: an open
descriptor has one owner, a closed one has no event object, whatever is armed is a
handler of the stream or the eventfd that owns the fd at this moment, and no event has
found anything else. -/
theorem dispatches_to_owner {maxFds : ℕ} {elsewhere : ℕ → Bool} {as : List (Action κ ω Cb)}
    (hrun : run StreamTable.step (start maxFds elsewhere) as = some s) :
    s.failed = false ∧
      (∀ fd, s.isOpen fd = true ↔ ∃ w, s.Owns fd w ∧ ∀ w', s.Owns fd w' → w' = w) ∧
      (∀ (fd : ℤ) d, (s.reactor.slots fd d).event ≠ none →
        ∃ n : ℕ, fd = n ∧ (s.Owns n .eventFd ∨ ∃ this, s.Owns n (.stream this))) ∧
      (∀ (fd : ℤ) d, (s.reactor.slots fd d).event = some true →
        ∃ (n : ℕ) (h : Handler κ ω),
          fd = n ∧ (s.reactor.slots fd d).callback = some h ∧ s.Serves n d h) ∧
      ∀ a u, s.step a = some u → u.failed = false := by
  have hs := inv_of_run hrun
  refine ⟨hs.sound, fun fd => ?_, hs.event, fun fd d hevent => ?_,
    fun a u h => (hs.step h).sound⟩
  · rw [hs.isOpen]
    constructor
    · rintro ⟨w, hw⟩
      exact ⟨w, hw, fun w' hw' => hs.unique fd w' w hw' hw⟩
    · rintro ⟨w, hw, -⟩
      exact ⟨w, hw⟩
  · have harmed : s.reactor.armed fd d = some (s.reactor.slots fd d).callback := if_pos hevent
    exact hs.armed fd d _ harmed

/-- The descriptor 5 is closed by the first stream with a read pending, and accepted
again for the second. -/
def reused : List (Action (Fin 2) Unit ℕ) :=
  [.accept 5, .newStream 0 5, .asyncRecvBytes .succeeds 0 (.ofNat 4) (some 1), .destroy 0,
    .accept 5, .newStream 1 5, .asyncRecvBytes .succeeds 1 (.ofNat 4) (some 2)]

theorem dispatches_to_owner_reused :
    ∃ s, run StreamTable.step (start 60000 fun fd => decide (fd < 3)) (reused.take 6) = some s ∧
      s.reactor.slots 5 .read = ⟨none, some (.onePackCall 0 .read)⟩ ∧
      ∃ t, run StreamTable.step (start 60000 fun fd => decide (fd < 3)) reused = some t ∧
        t.reactor.slots 5 .read = ⟨some true, some (.onePackCall 1 .read)⟩ ∧
        ∀ a u, t.step a = some u → u.failed = false := by
  have hrun : run StreamTable.step (start 60000 fun fd => decide (fd < 3)) reused = some _ := rfl
  exact ⟨_, rfl, rfl, _, rfl, rfl, (dispatches_to_owner hrun).2.2.2.2⟩

end StreamTable

end Banana
