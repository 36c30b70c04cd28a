import Banana.Network.StreamIsolation

/-!
# What the owner of a stream may rely on

For the objects that have streams of a `StreamTable` and are called back by them: a step
that is not for a stream leaves it and its events alone, a stream that has always been given
its owner's callback calls its owner, and an event of a socket is one of the stream that has
the fd, with what the stream alone would do.
-/

namespace Banana

open LibeventReactor Transition

/-! ## Calls that leave the streams where they are -/

/-- A stream has stored its connection for what is pending. -/
structure StreamFields.Bound {κ : Type*} (k : κ) (f : StreamFields κ) : Prop where
  recv : f.readPending = true → f.recvCompleteCallback = some k
  send : f.writePending = true → f.sendCompleteCallback = some k

namespace StreamFields

variable {κ : Type*} {k : κ} {f f' : StreamFields κ}

def Event.Binds (k : κ) : Event κ → Prop
  | asyncRecvBytes _ _ cb => cb = some k
  | asyncSendBytes _ _ cb => cb = some k
  | _ => True

theorem bound_new (k : κ) : Bound k (new : StreamFields κ) := ⟨nofun, nofun⟩

theorem Bound.step {e : Event κ} (h : Bound k f) (he : e.Binds k) (hstep : step f e = some f') :
    Bound k f' := by
  cases e with
  | asyncRecvBytes added num cb =>
      obtain rfl : cb = some k := he
      obtain rfl := Option.some.inj hstep
      rw [asyncRecvBytes]
      split_ifs
      · exact h
      · exact ⟨fun _ => rfl, h.send⟩
  | asyncSendBytes added vecBytes cb =>
      obtain rfl : cb = some k := he
      obtain rfl := Option.some.inj hstep
      rw [asyncSendBytes]
      split_ifs
      · exact h
      · exact ⟨h.recv, fun _ => rfl⟩
  | readable added res =>
      simp only [StreamFields.step, Option.ite_none_right_eq_some, Option.some.injEq] at hstep
      obtain ⟨⟨hread, -⟩, rfl⟩ := hstep
      have hcb := h.recv hread
      cases res with
      | data bytes =>
          rw [recvOnePack]
          split_ifs
          · exact ⟨fun _ => hcb, h.send⟩
          · exact ⟨fun _ => hcb, h.send⟩
      | _ => exact ⟨fun _ => hcb, h.send⟩
  | writable added res =>
      simp only [StreamFields.step, Option.ite_none_right_eq_some, Option.some.injEq] at hstep
      obtain ⟨⟨hwrite, -⟩, rfl⟩ := hstep
      have hcb := h.send hwrite
      cases res with
      | sent len =>
          rw [sendOnePack]
          split_ifs
          · exact ⟨h.recv, fun _ => hcb⟩
          · exact ⟨h.recv, fun _ => hcb⟩
      | _ => exact ⟨h.recv, fun _ => hcb⟩

/-- What `_recvOnePack` reports is what it has stored. -/
theorem recvOnePack_reports {added : Bool} {res : RecvResult} {retRecvStat : StreamStat}
    {vecBytes : List UInt8} (h : f.recvOnePack added res = (f', some (retRecvStat, vecBytes))) :
    f'.recvCompleteCallback = f.recvCompleteCallback ∧ f'.recvStat = retRecvStat ∧
      f'.recvBuf = vecBytes := by
  cases res with
  | again => simp [recvOnePack] at h
  | data bytes =>
      rw [recvOnePack] at h
      split_ifs at h
      · simp at h
      · obtain ⟨rfl, hcall⟩ := Prod.mk.inj h
        obtain ⟨rfl, rfl⟩ := Prod.mk.inj (Option.some.inj hcall)
        exact ⟨rfl, rfl, rfl⟩
  | _ =>
      obtain ⟨rfl, hcall⟩ := Prod.mk.inj h
      obtain ⟨rfl, rfl⟩ := Prod.mk.inj (Option.some.inj hcall)
      exact ⟨rfl, rfl, rfl⟩

theorem sendOnePack_reports {added : Bool} {res : SendResult} {retSendStat : StreamStat}
    (h : f.sendOnePack added res = (f', some retSendStat)) :
    f'.sendCompleteCallback = f.sendCompleteCallback ∧ f'.sendStat = retSendStat := by
  cases res with
  | again => simp [sendOnePack] at h
  | sent len =>
      rw [sendOnePack] at h
      split_ifs at h
      · simp at h
      · obtain ⟨rfl, hcall⟩ := Prod.mk.inj h
        exact ⟨rfl, Option.some.inj hcall⟩
  | _ =>
      obtain ⟨rfl, hcall⟩ := Prod.mk.inj h
      exact ⟨rfl, Option.some.inj hcall⟩

end StreamFields

namespace StreamTable

open StreamObject StreamFields

variable {κ ω : Type*}

/-- Neither makes a stream nor ends one, and binds a callback to the stream it is
stored in. -/
def InPlace : Action κ ω κ → Prop
  | .newStream _ _ => False
  | .destroy _ => False
  | .asyncRecvBytes _ this _ cb => cb = some this
  | .asyncSendBytes _ this _ cb => cb = some this
  | _ => True

/-- All that a step may leave alone for one stream. -/
structure Same (k : κ) (t u : StreamTable κ ω κ) : Prop where
  stream : u.stream k = t.stream k
  fields : ∀ o, t.stream k = .live o → o.fieldsIn u.reactor = o.fieldsIn t.reactor

theorem Same.refl (k : κ) (t : StreamTable κ ω κ) : Same k t t := ⟨rfl, fun _ _ => rfl⟩

theorem Same.trans {k : κ} {t u v : StreamTable κ ω κ} (h : Same k t u) (h' : Same k u v) :
    Same k t v :=
  ⟨h'.stream.trans h.stream, fun o hlive =>
    (h'.fields o (h.stream.trans hlive)).trans (h.fields o hlive)⟩

/-- Whether the events that are pending call back the owner of the stream. -/
def AllBound (t : StreamTable κ ω κ) : Prop :=
  ∀ k o, t.stream k = .live o → Bound k (o.fieldsIn t.reactor)

theorem inPlace_of_fires {a : Action κ ω κ} {fd : ℕ} {d : Direction} (h : a.fires fd d) :
    InPlace a := by
  cases a with
  | readable lib fd' res => trivial
  | writable lib fd' res => trivial
  | _ => exact h.elim

variable [DecidableEq κ] {k : κ} {t u : StreamTable κ ω κ} {a : Action κ ω κ}

theorem owns_of_inPlace (ha : InPlace a) (h : t.step a = some u) (fd : ℕ) :
    u.Owns fd (.stream k) ↔ t.Owns fd (.stream k) := by
  obtain ⟨-, hmove⟩ := moves_of_step h
  cases hmove with
  | newStream this fd' hunborn haccepted hpos => exact ha.elim
  | destroy this o hlive => exact ha.elim
  | asyncRecvBytes lib this num cb o hlive =>
      refine Keeps.owns ?_ fd _
      exact keeps_of_live hlive (touches_asyncRecvBytes _ lib this o num cb).1 rfl
        ⟨rfl, rfl, rfl⟩ rfl
  | asyncSendBytes lib this vecBytes cb o hlive =>
      refine Keeps.owns ?_ fd _
      exact keeps_of_live hlive (touches_asyncSendBytes _ lib this o vecBytes cb).1 rfl
        ⟨rfl, rfl, rfl⟩ rfl
  | recvOnePack lib res this o hlive harmed hmay =>
      refine Keeps.owns ?_ fd _
      exact keeps_of_live hlive (touches_recvOnePack _ lib this o res).1 rfl ⟨rfl, rfl, rfl⟩ rfl
  | sendOnePack lib res this o hlive harmed hmay =>
      refine Keeps.owns ?_ fd _
      exact keeps_of_live hlive (touches_sendOnePack _ lib this o res).1 rfl ⟨rfl, rfl, rfl⟩ rfl
  | _ => exact Iff.rfl

theorem live_iff_of_inPlace (ha : InPlace a) (h : t.step a = some u) (k : κ) :
    (∃ o, u.stream k = .live o) ↔ ∃ o, t.stream k = .live o := by
  constructor
  · rintro ⟨o, hlive⟩
    obtain ⟨o', hlive', -⟩ := (owns_of_inPlace ha h o.fd).mp ⟨o, hlive, rfl⟩
    exact ⟨o', hlive'⟩
  · rintro ⟨o, hlive⟩
    obtain ⟨o', hlive', -⟩ := (owns_of_inPlace ha h o.fd).mpr ⟨o, hlive, rfl⟩
    exact ⟨o', hlive'⟩

theorem binds_of_inPlace {o : StreamObject κ} (hlive : t.stream k = .live o) (ha : InPlace a)
    {e : StreamFields.Event κ} (he : eventsFor k t a = [e]) : e.Binds k := by
  cases a with
  | asyncRecvBytes lib this num cb =>
      by_cases hk : this = k
      · subst hk
        simp only [eventsFor, hlive, if_true, List.cons.injEq, and_true] at he
        exact he ▸ ha
      · simp [eventsFor, hlive, hk] at he
  | asyncSendBytes lib this vecBytes cb =>
      by_cases hk : this = k
      · subst hk
        simp only [eventsFor, hlive, if_true, List.cons.injEq, and_true] at he
        exact he ▸ ha
      · simp [eventsFor, hlive, hk] at he
  | readable lib fd res =>
      by_cases hfd : o.fd = fd
      · simp only [eventsFor, hlive, hfd, if_true, List.cons.injEq, and_true] at he
        exact he ▸ trivial
      · simp [eventsFor, hlive, hfd] at he
  | writable lib fd res =>
      by_cases hfd : o.fd = fd
      · simp only [eventsFor, hlive, hfd, if_true, List.cons.injEq, and_true] at he
        exact he ▸ trivial
      · simp [eventsFor, hlive, hfd] at he
  | _ => simp [eventsFor, hlive] at he

theorem AllBound.inPlace (hb : AllBound t) (ht : Inv t) (ha : InPlace a)
    (h : t.step a = some u) : AllBound u := by
  intro k o' hlive'
  obtain ⟨o, hlive⟩ := (live_iff_of_inPlace ha h k).mp ⟨o', hlive'⟩
  cases ht.sees hlive h with
  | nothing hlive'' hsame _ _ _ =>
      obtain rfl := Life.live.inj (hlive''.symm.trans hlive')
      rw [hsame]
      exact hb k o hlive
  | event e o'' hlive'' hevents hstep _ _ =>
      obtain rfl := Life.live.inj (hlive''.symm.trans hlive')
      exact (hb k o hlive).step (binds_of_inPlace hlive ha hevents) hstep
  | gone hgone _ _ _ =>
      rw [hgone] at hlive'
      cases hlive'

theorem same_of_inPlace (ht : Inv t) (ha : InPlace a) (hnot : eventsFor k t a = [])
    (h : t.step a = some u) : Same k t u := by
  cases hlife : t.stream k with
  | unborn =>
      rcases ht.born hlife h with hunborn | ⟨fd, hborn, -⟩
      · exact ⟨hunborn.trans hlife.symm, by simp [hlife]⟩
      · obtain ⟨o, hlive⟩ := (live_iff_of_inPlace ha h k).mp ⟨_, hborn⟩
        rw [hlife] at hlive
        cases hlive
  | destroyed => exact ⟨(destroyed_of_step hlife h).trans hlife.symm, by simp [hlife]⟩
  | live o =>
      cases ht.sees hlife h with
      | nothing hlive' hsame _ _ _ =>
          refine ⟨hlive'.trans hlife.symm, fun o' hlive => ?_⟩
          obtain rfl := Life.live.inj (hlife.symm.trans hlive)
          exact hsame
      | event e o' _ hevents _ _ _ =>
          rw [hnot] at hevents
          cases hevents
      | gone hgone _ _ _ =>
          obtain ⟨o', hlive'⟩ := (live_iff_of_inPlace ha h k).mpr ⟨o, hlife⟩
          rw [hgone] at hlive'
          cases hlive'

/-! ## A stream made, a stream ended -/

theorem owns_newStream {this : κ} {fd : ℕ} (h : t.step (.newStream this fd) = some u)
    (fd' : ℕ) (k : κ) :
    u.Owns fd' (.stream k) ↔ t.Owns fd' (.stream k) ∨ (fd' = fd ∧ k = this) := by
  obtain ⟨-, hmove⟩ := moves_of_step h
  cases hmove with
  | newStream _ _ hunborn haccepted hpos =>
      by_cases hk : k = this
      · subst hk
        simp [Owns, setStream, StreamObject.new, hunborn, eq_comm]
      · simp [Owns, setStream, hk]
  | onEventFd _ _ _ _ ha _ => exact ha.elim
  | misses _ _ _ _ ha _ _ => exact ha.elim

theorem same_newStream {this : κ} {fd : ℕ} (h : t.step (.newStream this fd) = some u)
    (hk : k ≠ this) : Same k t u := by
  obtain ⟨-, hmove⟩ := moves_of_step h
  cases hmove with
  | newStream _ _ hunborn haccepted hpos =>
      exact ⟨Function.update_of_ne hk _ _, fun _ _ => rfl⟩
  | onEventFd _ _ _ _ ha _ => exact ha.elim
  | misses _ _ _ _ ha _ _ => exact ha.elim

theorem newStream_spec {this : κ} {fd : ℕ} (h : t.step (.newStream this fd) = some u) :
    t.Owns fd .accepted ∧ t.stream this = .unborn ∧ u.running = t.running ∧
      u.stream this = .live (.new fd) := by
  obtain ⟨-, hmove⟩ := moves_of_step h
  cases hmove with
  | newStream _ _ hunborn haccepted hpos =>
      exact ⟨haccepted, hunborn, rfl, Function.update_self _ _ _⟩
  | onEventFd _ _ _ _ ha _ => exact ha.elim
  | misses _ _ _ _ ha _ _ => exact ha.elim

theorem fieldsIn_newStream (ht : Inv t) {this : κ} {fd : ℕ}
    (h : t.step (.newStream this fd) = some u) :
    (StreamObject.new fd : StreamObject κ).fieldsIn u.reactor = .new := by
  obtain ⟨-, hunborn, -, hborn⟩ := newStream_spec h
  rcases ht.born hunborn h with hstays | ⟨fd', hlive, hnew⟩
  · rw [hborn] at hstays
    cases hstays
  · obtain rfl : fd = fd' := congrArg StreamObject.fd (Life.live.inj (hborn.symm.trans hlive))
    exact hnew

theorem AllBound.newStream (hb : AllBound t) (ht : Inv t) {this : κ} {fd : ℕ}
    (h : t.step (.newStream this fd) = some u) : AllBound u := by
  intro k o hlive
  obtain ⟨-, -, -, hborn⟩ := newStream_spec h
  by_cases hk : k = this
  · subst hk
    obtain rfl := Life.live.inj (hborn.symm.trans hlive)
    rw [fieldsIn_newStream ht h]
    exact bound_new k
  · have hsame := same_newStream h hk
    have hlive' := hsame.stream.symm.trans hlive
    rw [hsame.fields o hlive']
    exact hb k o hlive'

/-- `endConnection` is the destructor of the stream. -/
theorem step_destroy (ht : Inv t) {this : κ} {o : StreamObject κ}
    (hlive : t.stream this = .live o) :
    t.step (.destroy this) = some ((t.streamDestructor o).setStream this .destroyed) := by
  simp [StreamTable.step, ht.sound, hlive]

theorem stream_destroy {this : κ} {o : StreamObject κ} :
    ((t.streamDestructor o).setStream this .destroyed).stream =
      Function.update t.stream this .destroyed := by
  rw [streamDestructor]
  split_ifs <;> rfl

theorem owns_destroy {this : κ} {o : StreamObject κ} (fd : ℕ) (k : κ) :
    ((t.streamDestructor o).setStream this .destroyed).Owns fd (.stream k) ↔
      t.Owns fd (.stream k) ∧ k ≠ this := by
  rw [Owns, stream_destroy]
  by_cases hk : k = this
  · subst hk
    simp
  · simp [hk, Owns]

theorem same_destroy (ht : Inv t) {this : κ} {o : StreamObject κ}
    (hlive : t.stream this = .live o) (hk : k ≠ this) :
    Same k t ((t.streamDestructor o).setStream this .destroyed) := by
  have hstays : ((t.streamDestructor o).setStream this .destroyed).stream k = t.stream k := by
    rw [stream_destroy, Function.update_of_ne hk]
  refine ⟨hstays, fun o' hlive' => ?_⟩
  cases ht.sees hlive' (step_destroy ht hlive) with
  | nothing _ hsame _ _ _ => exact hsame
  | event e _ _ hevents _ _ _ => simp [eventsFor, hlive'] at hevents
  | gone hgone _ _ _ =>
      rw [hstays, hlive'] at hgone
      cases hgone

theorem AllBound.destroy (hb : AllBound t) (ht : Inv t) {this : κ} {o : StreamObject κ}
    (hlive : t.stream this = .live o) :
    AllBound ((t.streamDestructor o).setStream this .destroyed) := by
  intro k o' hlive'
  have hk : k ≠ this := by
    rintro rfl
    rw [stream_destroy, Function.update_self] at hlive'
    cases hlive'
  have hsame := same_destroy ht hlive hk
  have hlive'' := hsame.stream.symm.trans hlive'
  rw [hsame.fields o' hlive'']
  exact hb k o' hlive''

theorem step_asyncRecvBytes (ht : Inv t) {this : κ} {o : StreamObject κ}
    (hlive : t.stream this = .live o) (lib : Libevent) (num : NativeInt) (cb : Option κ) :
    t.step (.asyncRecvBytes lib this num cb) =
      some { t.setStream this (.live (o.asyncRecvBytes t.reactor lib this num cb).2.2) with
        reactor := (o.asyncRecvBytes t.reactor lib this num cb).2.1 } := by
  simp [StreamTable.step, ht.sound, hlive]

theorem step_asyncSendBytes (ht : Inv t) {this : κ} {o : StreamObject κ}
    (hlive : t.stream this = .live o) (lib : Libevent) (vecBytes : List UInt8)
    (cb : Option κ) :
    t.step (.asyncSendBytes lib this vecBytes cb) =
      some { t.setStream this (.live (o.asyncSendBytes t.reactor lib this vecBytes cb).2.2) with
        reactor := (o.asyncSendBytes t.reactor lib this vecBytes cb).2.1 } := by
  simp [StreamTable.step, ht.sound, hlive]

/-! ## An event, seen by the stream that owns the fd -/

/-- A read event is one of the stream that has the fd, or of an eventfd. -/
inductive Reads (t : StreamTable κ ω κ) (lib : Libevent) (fd : ℕ) (res : RecvResult)
    (u : StreamTable κ ω κ) : Prop
  | eventFd (call : ω) (hown : t.Owns fd .eventFd) (hrunning : u.running = some (.onEventFd call))
  | stream (this : κ) (o o' : StreamObject κ) (call : Option (StreamStat × List UInt8))
      (hlive : t.stream this = .live o) (hfd : o.fd = fd)
      (hpending : (o.fieldsIn t.reactor).readPending = true)
      (hmay : (o.fieldsIn t.reactor).mayRecv res = true) (hlive' : u.stream this = .live o')
      (hpack : (o.fieldsIn t.reactor).recvOnePack
        (addOnePack (fired t.reactor fd .read) lib this fd .read).1 res =
          (o'.fieldsIn u.reactor, call))
      (hrunning : u.running = call.map fun _ => .onePackCall this .read)

theorem Inv.reads (ht : Inv t) {lib : Libevent} {fd : ℕ} {res : RecvResult}
    (h : t.step (.readable lib fd res) = some u) : Reads t lib fd res u := by
  obtain ⟨-, hmove⟩ := moves_of_step h
  cases hmove with
  | recvOnePack _ _ this o hlive harmed hmay =>
      refine .stream this o _ _ hlive rfl ?_ ?_ (Function.update_self _ _ _)
        (recvOnePack_fieldsIn t.reactor lib this o res) rfl
      · simp [fieldsIn, fields, harmed]
      · cases res <;> exact hmay
  | onEventFd _ fd' d call ha harmed =>
      obtain ⟨rfl, rfl⟩ := ha
      obtain ⟨n, h', hn, hcb, hserves⟩ := ht.armed _ _ _ harmed
      obtain rfl := Int.natCast_inj.mp hn
      obtain rfl := Option.some.inj hcb
      exact .eventFd call hserves rfl
  | misses _ fd' d cb ha harmed hbad =>
      obtain ⟨n, h', hn, rfl, hserves⟩ := ht.armed fd' d cb harmed
      obtain rfl := Int.natCast_inj.mp hn
      exact absurd hserves (hbad h' rfl)

inductive Writes (t : StreamTable κ ω κ) (lib : Libevent) (fd : ℕ) (res : SendResult)
    (u : StreamTable κ ω κ) : Prop
  | eventFd (call : ω) (hown : t.Owns fd .eventFd) (hrunning : u.running = some (.onEventFd call))
  | stream (this : κ) (o o' : StreamObject κ) (call : Option StreamStat)
      (hlive : t.stream this = .live o) (hfd : o.fd = fd)
      (hpending : (o.fieldsIn t.reactor).writePending = true)
      (hmay : (o.fieldsIn t.reactor).maySend res = true) (hlive' : u.stream this = .live o')
      (hpack : (o.fieldsIn t.reactor).sendOnePack
        (addOnePack (fired t.reactor fd .write) lib this fd .write).1 res =
          (o'.fieldsIn u.reactor, call))
      (hrunning : u.running = call.map fun _ => .onePackCall this .write)

theorem Inv.writes (ht : Inv t) {lib : Libevent} {fd : ℕ} {res : SendResult}
    (h : t.step (.writable lib fd res) = some u) : Writes t lib fd res u := by
  obtain ⟨-, hmove⟩ := moves_of_step h
  cases hmove with
  | sendOnePack _ _ this o hlive harmed hmay =>
      refine .stream this o _ _ hlive rfl ?_ ?_ (Function.update_self _ _ _)
        (sendOnePack_fieldsIn t.reactor lib this o res) rfl
      · simp [fieldsIn, fields, harmed]
      · cases res <;> exact hmay
  | onEventFd _ fd' d call ha harmed =>
      obtain ⟨rfl, rfl⟩ := ha
      obtain ⟨n, h', hn, hcb, hserves⟩ := ht.armed _ _ _ harmed
      obtain rfl := Int.natCast_inj.mp hn
      obtain rfl := Option.some.inj hcb
      exact .eventFd call hserves rfl
  | misses _ fd' d cb ha harmed hbad =>
      obtain ⟨n, h', hn, rfl, hserves⟩ := ht.armed fd' d cb harmed
      obtain rfl := Int.natCast_inj.mp hn
      exact absurd hserves (hbad h' rfl)

end StreamTable

end Banana
