import Banana.Network.StreamTable

/-!
# A stream among others does what it does alone

`StreamFields` is one stream whose events are two flags.  Over a shared table the
flags are what is armed for its fd, and its events are the calls on it and the events
of that fd, as long as it has the fd.  The run of a service gives every stream a run
of its own, with the same members, the same flags and the same callbacks, whatever
the other streams do and whoever has had the fd before.  What is proved of one stream
alone, that its requests are answered once and in order, is then true of each.
-/

namespace Banana

open LibeventReactor Transition

namespace StreamObject

variable {κ ω Cb : Type*}

/-- The members with the flags that the table holds for the fd. -/
def fieldsIn (o : StreamObject Cb) (r : Reactor (Handler κ ω)) : StreamFields Cb :=
  o.fields (r.armed o.fd .read).isSome (r.armed o.fd .write).isSome

theorem fieldsIn_congr {r r' : Reactor (Handler κ ω)} (o : StreamObject Cb)
    (hsame : ∀ d, r'.armed o.fd d = r.armed o.fd d) : o.fieldsIn r' = o.fieldsIn r := by
  rw [fieldsIn, hsame, hsame, fieldsIn]

theorem fieldsIn_new {r : Reactor (Handler κ ω)} {fd : ℕ} (hnone : ∀ d, r.armed fd d = none) :
    (new fd : StreamObject Cb).fieldsIn r = .new := by
  rw [fieldsIn, new, hnone, hnone]
  rfl

variable (r : Reactor (Handler κ ω)) (lib : Libevent) (this : κ)

theorem armed_addOnePack (fd : ℕ) (d : Direction) (fd' : ℤ) (d' : Direction) :
    (addOnePack r lib this fd d).2.armed fd' d' =
      if (addOnePack r lib this fd d).1 = true ∧ fd' = fd ∧ d' = d then
        some (some (.onePackCall this d))
      else r.armed fd' d' :=
  (addEventHandler_armed r lib fd d _ fd' d').1

/-- The flag of the direction is set if the event could be added. -/
theorem isSome_addOnePack (fd : ℕ) (d : Direction) :
    ((addOnePack r lib this fd d).2.armed fd d).isSome =
      ((addOnePack r lib this fd d).1 || (r.armed fd d).isSome) := by
  rw [armed_addOnePack]
  cases (addOnePack r lib this fd d).1 <;> simp

theorem isSome_addOnePack_of_ne (fd : ℕ) {d d' : Direction} (hne : d' ≠ d) :
    (addOnePack r lib this fd d).2.armed fd d' = r.armed fd d' := by
  rw [armed_addOnePack, if_neg fun hsame => hne hsame.2.2]

/-! ## One call -/

theorem asyncRecvBytes_fieldsIn (o : StreamObject Cb) (num : NativeInt) (cb : Option Cb) :
    (o.fieldsIn r).asyncRecvBytes (addOnePack r lib this o.fd .read).1 num cb =
      ((o.asyncRecvBytes r lib this num cb).1,
        (o.asyncRecvBytes r lib this num cb).2.2.fieldsIn
          (o.asyncRecvBytes r lib this num cb).2.1) := by
  cases cb with
  | none => rfl
  | some cb =>
      rw [StreamFields.asyncRecvBytes, asyncRecvBytes]
      split_ifs
      · rfl
      · have hne : Direction.write ≠ .read := by decide
        have hother := isSome_addOnePack_of_ne r lib this o.fd hne
        simp only [fieldsIn, fields, isSome_addOnePack, hother]

theorem asyncSendBytes_fieldsIn (o : StreamObject Cb) (vecBytes : List UInt8) (cb : Option Cb) :
    (o.fieldsIn r).asyncSendBytes (addOnePack r lib this o.fd .write).1 vecBytes cb =
      ((o.asyncSendBytes r lib this vecBytes cb).1,
        (o.asyncSendBytes r lib this vecBytes cb).2.2.fieldsIn
          (o.asyncSendBytes r lib this vecBytes cb).2.1) := by
  cases cb with
  | none => rfl
  | some cb =>
      rw [StreamFields.asyncSendBytes, asyncSendBytes]
      split_ifs
      · rfl
      · have hne : Direction.read ≠ .write := by decide
        have hother := isSome_addOnePack_of_ne r lib this o.fd hne
        simp only [fieldsIn, fields, isSome_addOnePack, hother]

/-! ## One event -/

/-- The table when the handler begins to run. -/
def fired (fd : ℕ) (d : Direction) : Reactor (Handler κ ω) :=
  r.setSlot fd d (r.slots fd d).fire

theorem armed_fired (fd : ℕ) (d : Direction) (fd' : ℤ) (d' : Direction) :
    (fired r fd d).armed fd' d' = if fd' = fd ∧ d' = d then none else r.armed fd' d' :=
  armed_fire r fd d fd' d'

theorem armed_fired_of_ne {fd fd' : ℕ} (d : Direction) (hne : fd' ≠ fd) (d' : Direction) :
    (fired r fd d).armed fd' d' = r.armed fd' d' := by
  rw [armed_fired, if_neg fun hsame => hne (Int.natCast_inj.mp hsame.1)]

theorem recvOnePack_fieldsIn (o : StreamObject Cb) (res : RecvResult) :
    (o.fieldsIn r).recvOnePack (addOnePack (fired r o.fd .read) lib this o.fd .read).1 res =
      ((o.recvOnePack (fired r o.fd .read) lib this res).2.1.fieldsIn
          (o.recvOnePack (fired r o.fd .read) lib this res).1,
        (o.recvOnePack (fired r o.fd .read) lib this res).2.2) := by
  have hread : (fired r o.fd .read).armed o.fd .read = none := by simp [armed_fired]
  have hwrite : (fired r o.fd .read).armed o.fd .write = r.armed o.fd .write := by
    simp [armed_fired]
  have hadded := isSome_addOnePack (fired r o.fd .read) lib this o.fd .read
  have hother : (addOnePack (fired r o.fd .read) lib this o.fd .read).2.armed o.fd .write =
      r.armed o.fd .write :=
    (isSome_addOnePack_of_ne _ lib this o.fd (by decide)).trans hwrite
  rw [hread, Option.isSome_none, Bool.or_false] at hadded
  cases res with
  | closed => simp [StreamFields.recvOnePack, recvOnePack, fieldsIn, fields, hread, hwrite]
  | error => simp [StreamFields.recvOnePack, recvOnePack, fieldsIn, fields, hread, hwrite]
  | again => simp [StreamFields.recvOnePack, recvOnePack, fieldsIn, fields, hadded, hother]
  | data bytes =>
      by_cases hlt : (bytes.length : ℤ) < o.needRecvLen
      · simp [StreamFields.recvOnePack, recvOnePack, fieldsIn, fields, hlt, hadded, hother,
          StreamFields.store, store]
      · simp [StreamFields.recvOnePack, recvOnePack, fieldsIn, fields, hlt, hread, hwrite,
          StreamFields.store, store]

theorem sendOnePack_fieldsIn (o : StreamObject Cb) (res : SendResult) :
    (o.fieldsIn r).sendOnePack (addOnePack (fired r o.fd .write) lib this o.fd .write).1 res =
      ((o.sendOnePack (fired r o.fd .write) lib this res).2.1.fieldsIn
          (o.sendOnePack (fired r o.fd .write) lib this res).1,
        (o.sendOnePack (fired r o.fd .write) lib this res).2.2) := by
  have hwrite : (fired r o.fd .write).armed o.fd .write = none := by simp [armed_fired]
  have hread : (fired r o.fd .write).armed o.fd .read = r.armed o.fd .read := by
    simp [armed_fired]
  have hadded := isSome_addOnePack (fired r o.fd .write) lib this o.fd .write
  have hother : (addOnePack (fired r o.fd .write) lib this o.fd .write).2.armed o.fd .read =
      r.armed o.fd .read :=
    (isSome_addOnePack_of_ne _ lib this o.fd (by decide)).trans hread
  rw [hwrite, Option.isSome_none, Bool.or_false] at hadded
  cases res with
  | zero => simp [StreamFields.sendOnePack, sendOnePack, fieldsIn, fields, hread, hwrite]
  | error => simp [StreamFields.sendOnePack, sendOnePack, fieldsIn, fields, hread, hwrite]
  | again => simp [StreamFields.sendOnePack, sendOnePack, fieldsIn, fields, hadded, hother]
  | sent len =>
      by_cases hlt : (len : ℤ) < o.needSendLen
      · simp [StreamFields.sendOnePack, sendOnePack, fieldsIn, fields, hlt, hadded, hother]
      · simp [StreamFields.sendOnePack, sendOnePack, fieldsIn, fields, hlt, hread, hwrite]

/-- A handler for one fd leaves the flags of the others. -/
theorem armed_of_touches {r r' : Reactor (Handler κ ω)} {lib : Libevent} {this : κ}
    {d : Direction} {o o' : StreamObject Cb} (h : Touches r lib this d o r' o') {fd : ℕ}
    (hne : fd ≠ o.fd) (d' : Direction) : r'.armed fd d' = r.armed fd d' := by
  rcases h.2 with rfl | rfl
  · rfl
  · rw [armed_addOnePack, if_neg fun hsame => hne (Int.natCast_inj.mp hsame.2.1)]

theorem callback_of_armed {r : Reactor (Handler κ ω)} {fd : ℤ} {d : Direction}
    {cb : Option (Handler κ ω)} (harmed : r.armed fd d = some cb) :
    (r.slots fd d).callback = cb := by
  rw [Reactor.armed, Option.ite_none_right_eq_some, Option.some.injEq] at harmed
  exact harmed.2

end StreamObject

/-! ## A run of the service, seen by one stream -/

namespace StreamTable

open StreamObject

variable {κ ω Cb : Type*}

theorem Inv.ne_of_owner {s : StreamTable κ ω Cb} (hs : Inv s) {k : κ} {o : StreamObject Cb}
    (hlive : s.stream k = .live o) {fd : ℕ} {w : Owner κ} (hown : s.Owns fd w)
    (hne : w ≠ .stream k) : o.fd ≠ fd := by
  rintro rfl
  have hk : s.Owns o.fd (.stream k) := ⟨o, hlive, rfl⟩
  exact hne (hs.unique o.fd _ _ hown hk)

variable [DecidableEq κ]

/-- What an action is for the stream `k`: a call on it, or an event of its fd.  The first
component of an event is what adding the handler returns. -/
def eventsFor (k : κ) (s : StreamTable κ ω Cb) (a : Action κ ω Cb) :
    List (StreamFields.Event Cb) :=
  match s.stream k, a with
  | .live o, .asyncRecvBytes lib this num cb =>
      if this = k then [.asyncRecvBytes (addOnePack s.reactor lib k o.fd .read).1 num cb] else []
  | .live o, .asyncSendBytes lib this vecBytes cb =>
      if this = k then
        [.asyncSendBytes (addOnePack s.reactor lib k o.fd .write).1 vecBytes cb]
      else []
  | .live o, .readable lib fd res =>
      if o.fd = fd then
        [.readable (addOnePack (fired s.reactor fd .read) lib k fd .read).1 res]
      else []
  | .live o, .writable lib fd res =>
      if o.fd = fd then
        [.writable (addOnePack (fired s.reactor fd .write) lib k fd .write).1 res]
      else []
  | _, _ => []

/-- The calls of `recvCompleteCallback_` that the action makes for `k`, by the callback
that it finds in the table. -/
def recvCallsFor (k : κ) (s : StreamTable κ ω Cb) (a : Action κ ω Cb) :
    List (Cb × StreamStat × List UInt8) :=
  match s.stream k, a with
  | .live o, .readable lib fd res =>
      match (s.reactor.slots fd .read).callback with
      | some (.onePackCall this .read) =>
          if this = k then
            (Option.map₂ Prod.mk o.recvCompleteCallback
              (o.recvOnePack (fired s.reactor fd .read) lib k res).2.2).toList
          else []
      | _ => []
  | _, _ => []

def sendCallsFor (k : κ) (s : StreamTable κ ω Cb) (a : Action κ ω Cb) :
    List (Cb × StreamStat) :=
  match s.stream k, a with
  | .live o, .writable lib fd res =>
      match (s.reactor.slots fd .write).callback with
      | some (.onePackCall this .write) =>
          if this = k then
            (Option.map₂ Prod.mk o.sendCompleteCallback
              (o.sendOnePack (fired s.reactor fd .write) lib k res).2.2).toList
          else []
      | _ => []
  | _, _ => []

def eventsOf (k : κ) (s : StreamTable κ ω Cb) (as : List (Action κ ω Cb)) :
    List (StreamFields.Event Cb) :=
  (trace step s as).flatMap fun p => eventsFor k p.1 p.2

def recvCallsOf (k : κ) (s : StreamTable κ ω Cb) (as : List (Action κ ω Cb)) :
    List (Cb × StreamStat × List UInt8) :=
  (trace step s as).flatMap fun p => recvCallsFor k p.1 p.2

def sendCallsOf (k : κ) (s : StreamTable κ ω Cb) (as : List (Action κ ω Cb)) :
    List (Cb × StreamStat) :=
  (trace step s as).flatMap fun p => sendCallsFor k p.1 p.2

variable {k : κ} {s u : StreamTable κ ω Cb} {a : Action κ ω Cb}

/-- What a step is for a stream that is live before it. -/
inductive Sees (k : κ) (s : StreamTable κ ω Cb) (a : Action κ ω Cb) (o : StreamObject Cb)
    (u : StreamTable κ ω Cb) : Prop
  | nothing (hlive : u.stream k = .live o) (hsame : o.fieldsIn u.reactor = o.fieldsIn s.reactor)
      (hevents : eventsFor k s a = []) (hrecv : recvCallsFor k s a = [])
      (hsend : sendCallsFor k s a = [])
  | event (e : StreamFields.Event Cb) (o' : StreamObject Cb) (hlive : u.stream k = .live o')
      (hevents : eventsFor k s a = [e])
      (hstep : StreamFields.step (o.fieldsIn s.reactor) e = some (o'.fieldsIn u.reactor))
      (hrecv : recvCallsFor k s a = StreamFields.recvCalls (o.fieldsIn s.reactor) e)
      (hsend : sendCallsFor k s a = StreamFields.sendCalls (o.fieldsIn s.reactor) e)
  | gone (hgone : u.stream k = .destroyed) (hevents : eventsFor k s a = [])
      (hrecv : recvCallsFor k s a = []) (hsend : sendCallsFor k s a = [])

/-- A request to a stream, or an event of an fd. -/
def Action.isCall : Action κ ω Cb → Bool
  | asyncRecvBytes _ _ _ _ => true
  | asyncSendBytes _ _ _ _ => true
  | readable _ _ _ => true
  | writable _ _ _ => true
  | _ => false

/-- The action is nothing for the stream `k`. -/
structure NothingFor (k : κ) (s : StreamTable κ ω Cb) (a : Action κ ω Cb) : Prop where
  events : eventsFor k s a = []
  recvCalls : recvCallsFor k s a = []
  sendCalls : sendCallsFor k s a = []

theorem nothingFor_of_not_isCall (k : κ) (s : StreamTable κ ω Cb) (ha : a.isCall = false) :
    NothingFor k s a := by
  cases a with
  | asyncRecvBytes => cases ha
  | asyncSendBytes => cases ha
  | readable => cases ha
  | writable => cases ha
  | _ => cases hlife : s.stream k <;> constructor <;>
      simp [eventsFor, recvCallsFor, sendCallsFor, hlife]

/-- An event of an fd that the stream does not have. -/
theorem nothingFor_of_fires (k : κ) {fd : ℕ} {d : Direction} {o : StreamObject Cb}
    (hlive : s.stream k = .live o) (ha : a.fires fd d) (hfd : o.fd ≠ fd)
    (hcb : (s.reactor.slots fd d).callback ≠ some (.onePackCall k d)) : NothingFor k s a := by
  cases a with
  | readable lib fd' res =>
      obtain ⟨rfl, rfl⟩ := ha
      refine ⟨by simp [eventsFor, hlive, hfd], ?_, by simp [sendCallsFor, hlive]⟩
      simp only [recvCallsFor, hlive]
      split
      · next this hthis =>
          refine if_neg fun hk => hcb ?_
          rw [hthis, hk]
      · rfl
  | writable lib fd' res =>
      obtain ⟨rfl, rfl⟩ := ha
      refine ⟨by simp [eventsFor, hlive, hfd], by simp [recvCallsFor, hlive], ?_⟩
      simp only [sendCallsFor, hlive]
      split
      · next this hthis =>
          refine if_neg fun hk => hcb ?_
          rw [hthis, hk]
      · rfl
  | _ => exact ha.elim

/-- A step that is nothing for the stream and leaves its events. -/
theorem Sees.of_nothing {o : StreamObject Cb} (hlive : u.stream k = .live o)
    (hsame : ∀ d, u.reactor.armed o.fd d = s.reactor.armed o.fd d) (h : NothingFor k s a) :
    Sees k s a o u :=
  .nothing hlive (o.fieldsIn_congr hsame) h.events h.recvCalls h.sendCalls

/-- What another stream is asked, or its fd reports. -/
theorem Inv.sees_other (hs : Inv s) {o o' : StreamObject Cb} {this : κ} {life : Life Cb}
    (hlive : s.stream k = .live o) (hlive' : s.stream this = .live o') (hk : this ≠ k)
    (hstream : u.stream = Function.update s.stream this life)
    (hsame : ∀ fd : ℕ, fd ≠ o'.fd → ∀ d, u.reactor.armed fd d = s.reactor.armed fd d)
    (hnothing : o.fd ≠ o'.fd → NothingFor k s a) : Sees k s a o u := by
  have hne := hs.ne_of_owner hlive (w := .stream this) ⟨o', hlive', rfl⟩ (by simpa using hk)
  refine .of_nothing ?_ (hsame o.fd hne) (hnothing hne)
  rw [hstream, Function.update_of_ne (Ne.symm hk), hlive]

/-- A read event of the stream's own fd. -/
theorem sees_recvOnePack {o : StreamObject Cb} (hlive : s.stream k = .live o) {lib : Libevent}
    {res : RecvResult}
    (harmed : s.reactor.armed o.fd .read = some (some (.onePackCall k .read)))
    (hmay : (o.fields true true).mayRecv res = true)
    (hstream : u.stream k = .live (o.recvOnePack (fired s.reactor o.fd .read) lib k res).2.1)
    (hreactor : u.reactor = (o.recvOnePack (fired s.reactor o.fd .read) lib k res).1) :
    Sees k s (.readable lib o.fd res) o u := by
  refine .event (.readable (addOnePack (fired s.reactor o.fd .read) lib k o.fd .read).1 res) _
    hstream (by simp [eventsFor, hlive]) ?_ ?_
    (by simp [sendCallsFor, hlive, StreamFields.sendCalls])
  · have hpending : (o.fieldsIn s.reactor).readPending = true := by
      simp [fieldsIn, fields, harmed]
    have hmay' : (o.fieldsIn s.reactor).mayRecv res = true := by
      cases res <;> exact hmay
    rw [StreamFields.step, if_pos ⟨hpending, hmay'⟩, recvOnePack_fieldsIn, hreactor]
  · simp only [recvCallsFor, hlive, callback_of_armed harmed, if_true, StreamFields.recvCalls,
      recvOnePack_fieldsIn]
    rfl

theorem sees_sendOnePack {o : StreamObject Cb} (hlive : s.stream k = .live o) {lib : Libevent}
    {res : SendResult}
    (harmed : s.reactor.armed o.fd .write = some (some (.onePackCall k .write)))
    (hmay : (o.fields true true).maySend res = true)
    (hstream : u.stream k = .live (o.sendOnePack (fired s.reactor o.fd .write) lib k res).2.1)
    (hreactor : u.reactor = (o.sendOnePack (fired s.reactor o.fd .write) lib k res).1) :
    Sees k s (.writable lib o.fd res) o u := by
  refine .event (.writable (addOnePack (fired s.reactor o.fd .write) lib k o.fd .write).1 res) _
    hstream (by simp [eventsFor, hlive]) ?_
    (by simp [recvCallsFor, hlive, StreamFields.recvCalls]) ?_
  · have hpending : (o.fieldsIn s.reactor).writePending = true := by
      simp [fieldsIn, fields, harmed]
    have hmay' : (o.fieldsIn s.reactor).maySend res = true := by
      cases res <;> exact hmay
    rw [StreamFields.step, if_pos ⟨hpending, hmay'⟩, sendOnePack_fieldsIn, hreactor]
  · simp only [sendCallsFor, hlive, callback_of_armed harmed, if_true, StreamFields.sendCalls,
      sendOnePack_fieldsIn]
    rfl

/-- A request to the stream itself. -/
theorem sees_asyncRecvBytes {o : StreamObject Cb} (hlive : s.stream k = .live o)
    (lib : Libevent) (num : NativeInt) (cb : Option Cb)
    (hstream : u.stream k = .live (o.asyncRecvBytes s.reactor lib k num cb).2.2)
    (hreactor : u.reactor = (o.asyncRecvBytes s.reactor lib k num cb).2.1) :
    Sees k s (.asyncRecvBytes lib k num cb) o u := by
  refine .event (.asyncRecvBytes (addOnePack s.reactor lib k o.fd .read).1 num cb) _ hstream
    (by simp [eventsFor, hlive]) ?_ (by simp [recvCallsFor, hlive, StreamFields.recvCalls])
    (by simp [sendCallsFor, hlive, StreamFields.sendCalls])
  rw [StreamFields.step, asyncRecvBytes_fieldsIn, hreactor]

theorem sees_asyncSendBytes {o : StreamObject Cb} (hlive : s.stream k = .live o)
    (lib : Libevent) (vecBytes : List UInt8) (cb : Option Cb)
    (hstream : u.stream k = .live (o.asyncSendBytes s.reactor lib k vecBytes cb).2.2)
    (hreactor : u.reactor = (o.asyncSendBytes s.reactor lib k vecBytes cb).2.1) :
    Sees k s (.asyncSendBytes lib k vecBytes cb) o u := by
  refine .event (.asyncSendBytes (addOnePack s.reactor lib k o.fd .write).1 vecBytes cb) _ hstream
    (by simp [eventsFor, hlive]) ?_ (by simp [recvCallsFor, hlive, StreamFields.recvCalls])
    (by simp [sendCallsFor, hlive, StreamFields.sendCalls])
  rw [StreamFields.step, asyncSendBytes_fieldsIn, hreactor]

theorem Inv.sees (hs : Inv s) {o : StreamObject Cb} (hlive : s.stream k = .live o)
    (h : s.step a = some u) : Sees k s a o u := by
  obtain ⟨-, hmove⟩ := moves_of_step h
  have hother : ∀ {fd : ℕ}, s.Owns fd .eventFd → o.fd ≠ fd := fun hown =>
    hs.ne_of_owner hlive (w := .eventFd) hown (by simp)
  cases hmove with
  | openElsewhere fd _ => exact .of_nothing hlive (fun _ => rfl) (nothingFor_of_not_isCall k s rfl)
  | closeElsewhere fd _ => exact .of_nothing hlive (fun _ => rfl) (nothingFor_of_not_isCall k s rfl)
  | accept fd _ => exact .of_nothing hlive (fun _ => rfl) (nothingFor_of_not_isCall k s rfl)
  | createEventFd fd _ => exact .of_nothing hlive (fun _ => rfl) (nothingFor_of_not_isCall k s rfl)
  | returns _ => exact .of_nothing hlive (fun _ => rfl) (nothingFor_of_not_isCall k s rfl)
  | addEventFd lib fd call hfd =>
      refine .of_nothing hlive (fun d => ?_) (nothingFor_of_not_isCall k s rfl)
      have hadd := (addEventHandler_armed s.reactor lib fd .read (some (.onEventFd call)) o.fd d).1
      rw [if_neg fun hsame => hother hfd (Int.natCast_inj.mp hsame.2.1)] at hadd
      exact hadd
  | newStream this fd hunborn haccepted hpos =>
      have hne : k ≠ this := by
        rintro rfl
        rw [hunborn] at hlive
        cases hlive
      exact .of_nothing ((Function.update_of_ne hne _ _).trans hlive) (fun _ => rfl)
        (nothingFor_of_not_isCall k s rfl)
  | asyncRecvBytes lib this num cb o' hlive' =>
      by_cases hk : this = k
      · subst hk
        obtain rfl := Life.live.inj (hlive.symm.trans hlive')
        exact sees_asyncRecvBytes hlive lib num cb (Function.update_self _ _ _) rfl
      · exact hs.sees_other hlive hlive' hk rfl
          (fun fd hne => armed_of_touches (touches_asyncRecvBytes _ lib this o' num cb) hne)
          fun _ => ⟨by simp [eventsFor, hlive, hk], by simp [recvCallsFor, hlive],
            by simp [sendCallsFor, hlive]⟩
  | asyncSendBytes lib this vecBytes cb o' hlive' =>
      by_cases hk : this = k
      · subst hk
        obtain rfl := Life.live.inj (hlive.symm.trans hlive')
        exact sees_asyncSendBytes hlive lib vecBytes cb (Function.update_self _ _ _) rfl
      · exact hs.sees_other hlive hlive' hk rfl
          (fun fd hne => armed_of_touches (touches_asyncSendBytes _ lib this o' vecBytes cb) hne)
          fun _ => ⟨by simp [eventsFor, hlive, hk], by simp [recvCallsFor, hlive],
            by simp [sendCallsFor, hlive]⟩
  | recvOnePack lib res this o' hlive' harmed hmay =>
      by_cases hk : this = k
      · subst hk
        obtain rfl := Life.live.inj (hlive.symm.trans hlive')
        exact sees_recvOnePack hlive harmed hmay (Function.update_self _ _ _) rfl
      · refine hs.sees_other hlive hlive' hk rfl (fun fd hne d => ?_) fun hne =>
          nothingFor_of_fires k hlive (d := .read) ⟨rfl, rfl⟩ hne
            (by simpa [callback_of_armed harmed] using hk)
        exact (armed_of_touches (touches_recvOnePack _ lib this o' res) hne d).trans
          (armed_fired_of_ne s.reactor .read hne d)
  | sendOnePack lib res this o' hlive' harmed hmay =>
      by_cases hk : this = k
      · subst hk
        obtain rfl := Life.live.inj (hlive.symm.trans hlive')
        exact sees_sendOnePack hlive harmed hmay (Function.update_self _ _ _) rfl
      · refine hs.sees_other hlive hlive' hk rfl (fun fd hne d => ?_) fun hne =>
          nothingFor_of_fires k hlive (d := .write) ⟨rfl, rfl⟩ hne
            (by simpa [callback_of_armed harmed] using hk)
        exact (armed_of_touches (touches_sendOnePack _ lib this o' res) hne d).trans
          (armed_fired_of_ne s.reactor .write hne d)
  | onEventFd _ fd d call ha harmed =>
      obtain ⟨n, h', hn, hcb', hserves⟩ := hs.armed fd d _ harmed
      obtain rfl := Int.natCast_inj.mp hn
      obtain rfl := Option.some.inj hcb'
      exact .of_nothing hlive (armed_fired_of_ne s.reactor d (hother hserves))
        (nothingFor_of_fires k hlive ha (hother hserves) (by simp [callback_of_armed harmed]))
  | misses _ fd d cb ha harmed hbad =>
      obtain ⟨n, h', hn, rfl, hserves⟩ := hs.armed fd d cb harmed
      obtain rfl := Int.natCast_inj.mp hn
      exact absurd hserves (hbad h' rfl)
  | destroy this o' hlive' =>
      have hnothing : NothingFor k s (.destroy this) := nothingFor_of_not_isCall k s rfl
      by_cases hk : this = k
      · subst hk
        exact .gone (Function.update_self _ _ _) hnothing.events hnothing.recvCalls
          hnothing.sendCalls
      · rw [streamDestructor, if_pos (hs.positive _ _ ⟨o', hlive', rfl⟩)]
        refine hs.sees_other hlive hlive' hk rfl (fun fd hne d => ?_) fun _ => hnothing
        have hslots := removeEventHandlers_slots s.reactor o'.fd fd d
        rw [if_neg fun hsame => hne (Int.natCast_inj.mp hsame)] at hslots
        change ite _ _ _ = ite _ _ _
        rw [setStream, hslots]

/-- A stream is created once, on an fd for which nothing is left in the table. -/
theorem Inv.born (hs : Inv s) (hunborn : s.stream k = .unborn) (h : s.step a = some u) :
    u.stream k = .unborn ∨
      ∃ fd, u.stream k = .live (.new fd) ∧
        (new fd : StreamObject Cb).fieldsIn u.reactor = .new := by
  obtain ⟨-, hmove⟩ := moves_of_step h
  have hother : ∀ {this : κ} {o : StreamObject Cb}, s.stream this = .live o → k ≠ this := by
    rintro this o hlive rfl
    rw [hunborn] at hlive
    cases hlive
  cases hmove with
  | newStream this fd hunborn' haccepted hpos =>
      by_cases hk : k = this
      · subst hk
        have hown : s.Owns fd .accepted := haccepted
        have hnone : ∀ d, s.reactor.armed fd d = none := by
          intro d
          have hevent := hs.event_eq_none (fun w hw => .inr (hs.unique fd w _ hw hown)) d
          rw [Reactor.armed, hevent]
          rfl
        exact .inr ⟨fd, Function.update_self _ _ _, fieldsIn_new hnone⟩
      · exact .inl ((Function.update_of_ne hk _ _).trans hunborn)
  | asyncRecvBytes lib this num cb o hlive =>
      exact .inl ((Function.update_of_ne (hother hlive) _ _).trans hunborn)
  | asyncSendBytes lib this vecBytes cb o hlive =>
      exact .inl ((Function.update_of_ne (hother hlive) _ _).trans hunborn)
  | recvOnePack lib res this o hlive harmed hmay =>
      exact .inl ((Function.update_of_ne (hother hlive) _ _).trans hunborn)
  | sendOnePack lib res this o hlive harmed hmay =>
      exact .inl ((Function.update_of_ne (hother hlive) _ _).trans hunborn)
  | destroy this o hlive =>
      refine .inl ((Function.update_of_ne (hother hlive) _ _).trans ?_)
      rw [streamDestructor]
      split_ifs <;> exact hunborn
  | _ => exact .inl hunborn

theorem destroyed_of_step (hgone : s.stream k = .destroyed) (h : s.step a = some u) :
    u.stream k = .destroyed := by
  obtain ⟨-, hmove⟩ := moves_of_step h
  have hother : ∀ {this : κ} {o : StreamObject Cb}, s.stream this = .live o → k ≠ this := by
    rintro this o hlive rfl
    rw [hgone] at hlive
    cases hlive
  cases hmove with
  | newStream this fd hunborn haccepted hpos =>
      have hne : k ≠ this := by
        rintro rfl
        rw [hgone] at hunborn
        cases hunborn
      exact (Function.update_of_ne hne _ _).trans hgone
  | asyncRecvBytes lib this num cb o hlive =>
      exact (Function.update_of_ne (hother hlive) _ _).trans hgone
  | asyncSendBytes lib this vecBytes cb o hlive =>
      exact (Function.update_of_ne (hother hlive) _ _).trans hgone
  | recvOnePack lib res this o hlive harmed hmay =>
      exact (Function.update_of_ne (hother hlive) _ _).trans hgone
  | sendOnePack lib res this o hlive harmed hmay =>
      exact (Function.update_of_ne (hother hlive) _ _).trans hgone
  | destroy this o hlive =>
      refine (Function.update_of_ne (hother hlive) _ _).trans ?_
      rw [streamDestructor]
      split_ifs <;> exact hgone
  | _ => exact hgone

/-- The stream alone, after the events that were for it. -/
structure Follows (k : κ) (s : StreamTable κ ω Cb) (es : List (StreamFields.Event Cb))
    (recvCalls : List (Cb × StreamStat × List UInt8)) (sendCalls : List (Cb × StreamStat)) :
    Prop where
  run : ∃ f, run StreamFields.step .new es = some f ∧
    ∀ o, s.stream k = .live o → o.fieldsIn s.reactor = f
  unborn : s.stream k = .unborn → es = []
  recvCalls : recvCalls = StreamFields.recvCallsOf .new es
  sendCalls : sendCalls = StreamFields.sendCallsOf .new es

omit [DecidableEq κ] in
theorem follows_start (k : κ) (maxFds : ℕ) (elsewhere : ℕ → Bool) :
    Follows k (start maxFds elsewhere : StreamTable κ ω Cb) [] [] [] where
  run := ⟨.new, rfl, fun o hlive => by cases hlive⟩
  unborn _ := rfl
  recvCalls := rfl
  sendCalls := rfl

theorem Follows.step {es : List (StreamFields.Event Cb)}
    {recvCalls : List (Cb × StreamStat × List UInt8)} {sendCalls : List (Cb × StreamStat)}
    (hf : Follows k s es recvCalls sendCalls) (hs : Inv s) (h : s.step a = some u) :
    Follows k u (es ++ eventsFor k s a) (recvCalls ++ recvCallsFor k s a)
      (sendCalls ++ sendCallsFor k s a) := by
  obtain ⟨f, hrun, hfields⟩ := hf.run
  cases hlife : s.stream k with
  | unborn =>
      have hevents : eventsFor k s a = [] := by simp [eventsFor, hlife]
      have hrecv : recvCallsFor k s a = [] := by simp [recvCallsFor, hlife]
      have hsend : sendCallsFor k s a = [] := by simp [sendCallsFor, hlife]
      obtain rfl := hf.unborn hlife
      rw [hevents, hrecv, hsend, List.append_nil, List.append_nil, List.append_nil]
      refine ⟨⟨.new, run_nil _, fun o hlive => ?_⟩, fun _ => rfl, hf.recvCalls, hf.sendCalls⟩
      rcases hs.born hlife h with hunborn | ⟨fd, hborn, hnew⟩
      · rw [hunborn] at hlive
        cases hlive
      · rw [hborn] at hlive
        obtain rfl := Life.live.inj hlive
        exact hnew
  | destroyed =>
      have hevents : eventsFor k s a = [] := by simp [eventsFor, hlife]
      have hrecv : recvCallsFor k s a = [] := by simp [recvCallsFor, hlife]
      have hsend : sendCallsFor k s a = [] := by simp [sendCallsFor, hlife]
      have hgone := destroyed_of_step hlife h
      rw [hevents, hrecv, hsend, List.append_nil, List.append_nil, List.append_nil]
      exact ⟨⟨f, hrun, by simp [hgone]⟩, by simp [hgone], hf.recvCalls, hf.sendCalls⟩
  | live o =>
      have hf' := hfields o hlife
      cases hs.sees hlife h with
      | nothing hlive hsame hevents hrecv hsend =>
          rw [hevents, hrecv, hsend, List.append_nil, List.append_nil, List.append_nil]
          refine ⟨⟨f, hrun, fun o' hlive' => ?_⟩, by simp [hlive], hf.recvCalls, hf.sendCalls⟩
          obtain rfl := Life.live.inj (hlive.symm.trans hlive')
          exact hsame.trans hf'
      | gone hgone hevents hrecv hsend =>
          rw [hevents, hrecv, hsend, List.append_nil, List.append_nil, List.append_nil]
          exact ⟨⟨f, hrun, by simp [hgone]⟩, by simp [hgone], hf.recvCalls, hf.sendCalls⟩
      | event e o' hlive hevents hstep hrecv hsend =>
          rw [hf'] at hstep hrecv hsend
          rw [hevents, hrecv, hsend, hf.recvCalls, hf.sendCalls]
          refine ⟨⟨_, run_concat_eq_some.mpr ⟨f, hrun, hstep⟩, fun o'' hlive'' => ?_⟩,
            by simp [hlive], ?_, ?_⟩
          · obtain rfl := Life.live.inj (hlive.symm.trans hlive'')
            rfl
          · simp [StreamFields.recvCallsOf, trace_concat hrun]
          · simp [StreamFields.sendCallsOf, trace_concat hrun]

theorem follows_of_run {maxFds : ℕ} {elsewhere : ℕ → Bool} {as : List (Action κ ω Cb)}
    (hrun : Transition.run StreamTable.step (start maxFds elsewhere) as = some s) (k : κ) :
    Follows k s (eventsOf k (start maxFds elsewhere) as)
      (recvCallsOf k (start maxFds elsewhere) as) (sendCallsOf k (start maxFds elsewhere) as) := by
  have hinv := run_trace_invariant
    (I := fun (s : StreamTable κ ω Cb) hist => Inv s ∧
      Follows k s (hist.flatMap fun p => eventsFor k p.1 p.2)
        (hist.flatMap fun p => recvCallsFor k p.1 p.2)
        (hist.flatMap fun p => sendCallsFor k p.1 p.2))
    (A := fun _ => True)
    (fun s hist a t hs _ ht => ⟨hs.1.step ht, by simpa using hs.2.step hs.1 ht⟩)
    ⟨inv_start maxFds elsewhere, follows_start k maxFds elsewhere⟩ (fun _ _ => trivial) hrun
  exact hinv.2

/-- In every run of the streams of a service, whatever the other streams, the eventfds
and earlier owners of its fd do: a stream is in the state that its own events lead to
when it is alone, and the loop has called its callbacks as often, in the same order and
with the same status and bytes. -/
theorem stream_refines {maxFds : ℕ} {elsewhere : ℕ → Bool} {as : List (Action κ ω Cb)}
    (hrun : Transition.run StreamTable.step (start maxFds elsewhere) as = some s) (k : κ) :
    (∃ f, Transition.run StreamFields.step .new (eventsOf k (start maxFds elsewhere) as) = some f ∧
      ∀ o, s.stream k = .live o → o.fieldsIn s.reactor = f) ∧
    recvCallsOf k (start maxFds elsewhere) as =
      StreamFields.recvCallsOf .new (eventsOf k (start maxFds elsewhere) as) ∧
    sendCallsOf k (start maxFds elsewhere) as =
      StreamFields.sendCallsOf .new (eventsOf k (start maxFds elsewhere) as) := by
  have hf := follows_of_run hrun k
  exact ⟨hf.run, hf.recvCalls, hf.sendCalls⟩

/-- Two streams that receive by turns; the third has the fd of the first. -/
def byTurns : List (Action (Fin 3) Unit ℕ) :=
  [.accept 5, .newStream 0 5, .asyncRecvBytes .succeeds 0 (.ofNat 2) (some 1), .accept 6,
    .newStream 1 6, .asyncRecvBytes .succeeds 1 (.ofNat 1) (some 2),
    .readable .succeeds 5 (.data [7]), .readable .succeeds 6 (.data [9]), .returns,
    .readable .succeeds 5 (.data [8]), .returns, .destroy 0, .accept 5, .newStream 2 5,
    .asyncRecvBytes .succeeds 2 (.ofNat 1) (some 3), .readable .succeeds 5 (.data [4])]

theorem stream_refines_byTurns :
    recvCallsOf 0 (start 60000 fun fd => decide (fd < 3)) byTurns = [(1, .recved, [7, 8])] ∧
      StreamFields.recvCallsOf .new (eventsOf 0 (start 60000 fun fd => decide (fd < 3)) byTurns) =
        [(1, .recved, [7, 8])] := by
  obtain ⟨s, hrun⟩ : ∃ s, Transition.run StreamTable.step
      (start 60000 fun fd => decide (fd < 3)) byTurns = some s := ⟨_, rfl⟩
  have hcalls : recvCallsOf 0 (start 60000 fun fd => decide (fd < 3)) byTurns =
      [(1, .recved, [7, 8])] := by decide +kernel
  exact ⟨hcalls, (stream_refines hrun 0).2.1.symm.trans hcalls⟩

/-! ## Requests among the requests of others -/

/-- The calls on the stream and the events of its fd, without what libevent returns. -/
def requestsOf (k : κ) (s : StreamTable κ ω Cb) (as : List (Action κ ω Cb)) :
    List (StreamRequests.RequestEvent Cb) :=
  (eventsOf k s as).map StreamFields.Event.toRequest

/-- A stream of a service whose own requests do not overlap, with buffers that an `int`
can measure and events that could be added: every request is answered once and in order,
the bytes received are handed over as they arrived, and those to send follow one
another.  The other streams may do what they like. -/
theorem answers_in_order {maxFds : ℕ} {elsewhere : ℕ → Bool} {as : List (Action κ ω Cb)}
    (hrun : Transition.run StreamTable.step (start maxFds elsewhere) as = some s) (k : κ)
    (hfits : ∀ e ∈ eventsOf k (start maxFds elsewhere) as, StreamFields.Event.Fits e)
    (hturn : Along StreamRequests.InTurn StreamRequests.step .new
      (requestsOf k (start maxFds elsewhere) as)) :
    ∃ r, Transition.run StreamRequests.step .new (requestsOf k (start maxFds elsewhere) as) =
        some r ∧
      (∀ o, s.stream k = .live o → o.fieldsIn s.reactor = .ofRequests r) ∧
      StreamRequests.SendsInOrder r
        (StreamRequests.sendRequestsOf .new (requestsOf k (start maxFds elsewhere) as))
        (sendCallsOf k (start maxFds elsewhere) as)
        (StreamRequests.wireOf .new (requestsOf k (start maxFds elsewhere) as))
        ((requestsOf k (start maxFds elsewhere) as).any StreamRequests.RequestEvent.sendFails) ∧
      StreamRequests.RecvsInOrder r
        (StreamRequests.recvRequestsOf .new (requestsOf k (start maxFds elsewhere) as))
        (recvCallsOf k (start maxFds elsewhere) as)
        ((requestsOf k (start maxFds elsewhere) as).flatMap StreamRequests.RequestEvent.arrived)
        ((requestsOf k (start maxFds elsewhere) as).any StreamRequests.RequestEvent.recvFails) := by
  have hf := follows_of_run hrun k
  obtain ⟨f, hrunf, hlive⟩ := hf.run
  rw [StreamFields.run_new hfits, Option.map_eq_some_iff] at hrunf
  obtain ⟨r, hr, rfl⟩ := hrunf
  have hrecv := StreamFields.recvCallsOf_ofRequests StreamFields.bounded_new hfits hr
  have hsend := StreamFields.sendCallsOf_ofRequests StreamFields.bounded_new hfits hr
  refine ⟨r, hr, hlive, ?_, ?_⟩
  · rw [hf.sendCalls.trans hsend]
    exact StreamRequests.sendsInOrder_of_run hr hturn
  · rw [hf.recvCalls.trans hrecv]
    exact StreamRequests.recvsInOrder_of_run hr hturn

/-- A reply that is sent in two packs, a reply of the other stream between them. -/
def twoRepliers : List (Action (Fin 2) Unit ℕ) :=
  [.accept 5, .newStream 0 5, .accept 6, .newStream 1 6,
    .asyncSendBytes .succeeds 0 [1, 2, 3] (some 1), .asyncSendBytes .succeeds 1 [8] (some 2),
    .writable .succeeds 5 (.sent 1), .writable .succeeds 6 (.sent 1), .returns,
    .writable .succeeds 5 (.sent 2), .returns]

theorem answers_in_order_twoRepliers :
    sendCallsOf 0 (start 60000 fun fd => decide (fd < 3)) twoRepliers = [(1, .sended)] ∧
      StreamRequests.wireOf .new
        (requestsOf 0 (start 60000 fun fd => decide (fd < 3)) twoRepliers) = [1, 2, 3] := by
  obtain ⟨s, hrun⟩ : ∃ s, Transition.run StreamTable.step
      (start 60000 fun fd => decide (fd < 3)) twoRepliers = some s := ⟨_, rfl⟩
  obtain ⟨r, hr, -, hsend, -⟩ :=
    answers_in_order hrun 0 (by decide +kernel) (by decide +kernel)
  have hidle : (Transition.run StreamRequests.step .new
      (requestsOf 0 (start 60000 fun fd => decide (fd < 3)) twoRepliers)).map
        (fun r => r.stream.writePending) = some false := by decide +kernel
  rw [hr, Option.map_some, Option.some.injEq] at hidle
  have hbytes := hsend.bytes (by decide +kernel)
  rw [Stream.unsent, hidle, if_neg Bool.false_ne_true, List.append_nil] at hbytes
  exact ⟨by decide +kernel, hbytes.trans (by decide +kernel)⟩

end StreamTable

end Banana
