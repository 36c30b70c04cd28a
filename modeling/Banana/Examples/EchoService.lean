import Banana.Examples.ConcurrentConnection
import Banana.Network.StreamOwners

/-!
# A service of the echo server

A `NetWorkService` of `examples/ConcurrenceEchoServer` with all its connections over
one event table.  A connection is an object that the map of the service holds by the
fd of its stream, and that the stored callbacks of the stream point to without holding
it.  `_destroy` erases the entry, the connection goes with its last reference, and its
stream closes the fd, which may be given out again at once.

`ConcurrentConnection` is one connection on a socket of its own.  Here every callback
looks its connection up, and each of them that adds a handler may find that libevent
refuses.
-/

namespace Banana

open LibeventReactor Transition

/-- The members of a `ConcurrentConnection` next to its stream. -/
structure EchoMembers where
  stat : ConnectionStat
  recvBuf : List UInt8

/-- A connection and its stream have one name.  `connection` has the objects that are
there; `failed` says that a callback was empty or its connection gone. -/
structure EchoService (κ ω : Type*) where
  table : StreamTable κ ω κ
  connection : κ → Option EchoMembers
  connectionMap : ℕ → Option κ
  failed : Bool

namespace EchoService

variable {κ ω : Type*}

def start (maxFds : ℕ) (elsewhere : ℕ → Bool) : EchoService κ ω where
  table := .start maxFds elsewhere
  connection := fun _ => none
  connectionMap := fun _ => none
  failed := false

variable [DecidableEq κ]

def setConnection (s : EchoService κ ω) (this : κ) (m : Option EchoMembers) :
    EchoService κ ω :=
  { s with connection := Function.update s.connection this m }

def setStat (s : EchoService κ ω) (this : κ) (stat : ConnectionStat) : EchoService κ ω :=
  s.setConnection this ((s.connection this).map fun m => { m with stat := stat })

def setRecvBuf (s : EchoService κ ω) (this : κ) (recvBuf : List UInt8) : EchoService κ ω :=
  s.setConnection this ((s.connection this).map fun m => { m with recvBuf := recvBuf })

/-- The last reference to a connection is dropped, and with it the one to its stream. -/
def endConnection (s : EchoService κ ω) (this : κ) : EchoService κ ω :=
  match s.table.stream this with
  | .live o =>
      { s.setConnection this none with
        table := (s.table.streamDestructor o).setStream this .destroyed }
  | _ => s

/-- `insert` keeps an entry that is there. -/
def addNewConnection (s : EchoService κ ω) (handle : ℕ) (this : κ) : Bool × EchoService κ ω :=
  match s.connectionMap handle with
  | some _ => (false, s)
  | none =>
      (true, { s with connectionMap := Function.update s.connectionMap handle (some this) })

/-- `erase` drops the reference of the map; no other outlives the callback. -/
def removeConnection (s : EchoService κ ω) (handle : ℕ) : EchoService κ ω :=
  match s.connectionMap handle with
  | some c =>
      { s with connectionMap := Function.update s.connectionMap handle none }.endConnection c
  | none => s

/-- `_destroy`; `handle_` is the fd of the stream. -/
def destroy (s : EchoService κ ω) (this : κ) : EchoService κ ω :=
  match s.table.stream this with
  | .live o => s.removeConnection o.fd
  | _ => { s with failed := true }

def asyncRecvBytes (s : EchoService κ ω) (lib : Libevent) (this : κ) (num : NativeInt) :
    Bool × EchoService κ ω :=
  match s.table.stream this with
  | .live o =>
      let out := o.asyncRecvBytes s.table.reactor lib this num (some this)
      (out.1, { s with
        table := { s.table.setStream this (.live out.2.2) with reactor := out.2.1 } })
  | _ => (false, { s with failed := true })

def asyncSendBytes (s : EchoService κ ω) (lib : Libevent) (this : κ) (vecBytes : List UInt8) :
    Bool × EchoService κ ω :=
  match s.table.stream this with
  | .live o =>
      let out := o.asyncSendBytes s.table.reactor lib this vecBytes (some this)
      (out.1, { s with
        table := { s.table.setStream this (.live out.2.2) with reactor := out.2.1 } })
  | _ => (false, { s with failed := true })

/-! ## The callbacks of a connection -/

variable (s : EchoService κ ω) (lib : Libevent) (this : κ)

/-- Receive the next header, or give up. -/
def startRecvHead : EchoService κ ω :=
  match (s.setStat this .recvHead).asyncRecvBytes lib this (.ofNat 4) with
  | (true, s) => s
  | (false, s) => s.destroy this

def recvHeadDone (bodyLen : NativeInt) : EchoService κ ω :=
  if 1024 < bodyLen.val then (s.asyncRecvBytes lib this (.ofNat 4)).2
  else (s.asyncRecvBytes lib this bodyLen).2.setStat this .recvBody

def recvBodyDone (vecBytes : List UInt8) : EchoService κ ω :=
  ((s.setRecvBuf this (NativeInt.bytesOfNat 4 vecBytes.length ++ vecBytes)).asyncSendBytes lib
    this (NativeInt.bytesOfNat 4 vecBytes.length ++ vecBytes)).2

def recvCompleteCallback (retRecvStat : StreamStat) (vecBytes : List UInt8) : EchoService κ ω :=
  match s.connection this with
  | none => { s with failed := true }
  | some m =>
      if retRecvStat = .recverr then s.destroy this
      else
        match m.stat with
        | .recvHead =>
            if vecBytes.length < 4 then (s.asyncRecvBytes lib this (.ofNat 4)).2
            else s.recvHeadDone lib this (NativeInt.decode vecBytes)
        | .recvBody => s.recvBodyDone lib this vecBytes

def sendCompleteCallback (retSendStat : StreamStat) : EchoService κ ω :=
  match s.connection this with
  | none => { s with failed := true }
  | some _ => if retSendStat = .senderr then s.destroy this else s.startRecvHead lib this

/-- `onConnection`, for a stream just made.  If the entry is not inserted, the connection
ends with the last reference of this function. -/
def onConnection (fd : ℕ) : EchoService κ ω :=
  match (s.setConnection this (some ⟨.recvHead, []⟩)).addNewConnection fd this with
  | (true, s) => s.startRecvHead lib this
  | (false, s) => (s.startRecvHead lib this).endConnection this

/-! ## The loop -/

def returns : EchoService κ ω := { s with table := { s.table with running := none } }

/-- If `_recvOnePack` or `_sendOnePack` has come to its end, it calls what the stream
has stored with what the stream has received. -/
def complete : EchoService κ ω :=
  match s.table.running with
  | some (.onePackCall this d) =>
      match s.table.stream this, d with
      | .live o, .read =>
          match o.recvCompleteCallback with
          | some c => (s.recvCompleteCallback lib c o.recvStat o.recvBuf).returns
          | none => { s with failed := true }
      | .live o, .write =>
          match o.sendCompleteCallback with
          | some c => (s.sendCompleteCallback lib c o.sendStat).returns
          | none => { s with failed := true }
      | _, _ => { s with failed := true }
  | _ => s

/-- What the rest of the process does to the table, and the service outside of its
connections. -/
def Outside : StreamTable.Action κ ω κ → Bool
  | .openElsewhere _ => true
  | .closeElsewhere _ => true
  | .accept _ => true
  | .createEventFd _ => true
  | .addEventFd _ _ _ => true
  | .returns => true
  | _ => false

/-- `onConnection` runs in the handler of an eventfd, on an accepted fd. -/
inductive Action (κ ω : Type*)
  | outside (a : StreamTable.Action κ ω κ)
  | onConnection (lib : Libevent) (this : κ) (fd : ℕ)
  | readable (lib : Libevent) (fd : ℕ) (res : RecvResult)
  | writable (lib : Libevent) (fd : ℕ) (res : SendResult)

def step (s : EchoService κ ω) (a : Action κ ω) : Option (EchoService κ ω) :=
  if s.failed then none
  else
    match a with
    | .outside a =>
        if Outside a then (s.table.step a).map fun t => { s with table := t } else none
    | .onConnection lib this fd =>
        match s.table.running with
        | some (.onEventFd _) =>
            (s.table.step (.newStream this fd)).map fun t =>
              { s with table := t }.onConnection lib this fd
        | _ => none
    | .readable lib fd res =>
        (s.table.step (.readable lib fd res)).map fun t => { s with table := t }.complete lib
    | .writable lib fd res =>
        (s.table.step (.writable lib fd res)).map fun t => { s with table := t }.complete lib

end EchoService

/-! ## What a callback does to the others -/

namespace EchoService

open StreamTable

variable {κ ω : Type*}

/-- Between two statements of a callback: the objects that are there are the live streams,
each is in the map under its fd, and the pending events call them. -/
structure Ok (s : EchoService κ ω) : Prop where
  table : s.table.Inv
  sound : s.failed = false
  bound : s.table.AllBound
  alive : ∀ k, (s.connection k).isSome = true ↔ ∃ fd, s.table.Owns fd (.stream k)
  entry : ∀ fd k, s.connectionMap fd = some k ↔ s.table.Owns fd (.stream k)

/-- A callback of `this` may have come from `s` to `u`. -/
structure Acts (this : κ) (s u : EchoService κ ω) : Prop where
  ok : u.Ok
  running : u.table.running = s.table.running
  same : ∀ k, k ≠ this → s.table.Same k u.table ∧ u.connection k = s.connection k

theorem Acts.refl {s : EchoService κ ω} (hs : s.Ok) (this : κ) : Acts this s s :=
  ⟨hs, rfl, fun _ _ => ⟨.refl _ _, rfl⟩⟩

theorem Acts.trans {this : κ} {s u v : EchoService κ ω} (h : Acts this s u)
    (h' : Acts this u v) : Acts this s v := by
  refine ⟨h'.ok, h'.running.trans h.running, fun k hk => ?_⟩
  obtain ⟨htable, hconnection⟩ := h.same k hk
  obtain ⟨htable', hconnection'⟩ := h'.same k hk
  exact ⟨htable.trans htable', hconnection'.trans hconnection⟩

variable [DecidableEq κ] {s u : EchoService κ ω} {t : StreamTable κ ω κ} {this : κ}
  {o : StreamObject κ}

theorem setConnection_self {m : Option EchoMembers} :
    (s.setConnection this m).connection this = m := Function.update_self _ _ _

theorem setConnection_of_ne {k : κ} {m : Option EchoMembers} (hk : k ≠ this) :
    (s.setConnection this m).connection k = s.connection k := Function.update_of_ne hk _ _

theorem Ok.inPlace (hs : s.Ok) {a : StreamTable.Action κ ω κ} (ha : InPlace a)
    (h : s.table.step a = some t) : { s with table := t }.Ok where
  table := hs.table.step h
  sound := hs.sound
  bound := hs.bound.inPlace hs.table ha h
  alive k := (hs.alive k).trans (exists_congr fun fd => (owns_of_inPlace ha h fd).symm)
  entry fd k := (hs.entry fd k).trans (owns_of_inPlace ha h fd).symm

theorem Ok.setMembers (hs : s.Ok) (this : κ) (f : EchoMembers → EchoMembers) :
    Acts this s (s.setConnection this ((s.connection this).map f)) := by
  refine ⟨⟨hs.table, hs.sound, hs.bound, fun k => ?_, hs.entry⟩, rfl, fun k hk => ?_⟩
  · refine Iff.trans ?_ (hs.alive k)
    by_cases hk : k = this
    · subst hk
      rw [setConnection_self, Option.isSome_map]
    · rw [setConnection_of_ne hk]
  · exact ⟨.refl _ _, setConnection_of_ne hk⟩

theorem asyncRecvBytes_eq (hlive : s.table.stream this = .live o) (lib : Libevent)
    (num : NativeInt) :
    ∃ out, out = o.asyncRecvBytes s.table.reactor lib this num (some this) ∧
      s.asyncRecvBytes lib this num = (out.1, { s with
        table := { s.table.setStream this (.live out.2.2) with reactor := out.2.1 } }) := by
  refine ⟨_, rfl, ?_⟩
  rw [EchoService.asyncRecvBytes, hlive]

-- The result is named: the kernel would otherwise evaluate `sendSize` to compare terms.
theorem asyncSendBytes_eq (hlive : s.table.stream this = .live o) (lib : Libevent)
    (vecBytes : List UInt8) :
    ∃ out, out = o.asyncSendBytes s.table.reactor lib this vecBytes (some this) ∧
      s.asyncSendBytes lib this vecBytes = (out.1, { s with
        table := { s.table.setStream this (.live out.2.2) with reactor := out.2.1 } }) := by
  refine ⟨_, rfl, ?_⟩
  rw [EchoService.asyncSendBytes, hlive]

/-- A call of `this` on its own stream. -/
theorem Ok.acts (hs : s.Ok) {a : StreamTable.Action κ ω κ} (ha : InPlace a)
    (hother : ∀ k, k ≠ this → eventsFor k s.table a = []) (h : s.table.step a = some t)
    (hrunning : t.running = s.table.running) : Acts this s { s with table := t } :=
  ⟨hs.inPlace ha h, hrunning, fun k hk =>
    ⟨same_of_inPlace hs.table ha (hother k hk) h, rfl⟩⟩

theorem Ok.asyncRecvBytes (hs : s.Ok) (hlive : s.table.stream this = .live o) (lib : Libevent)
    (num : NativeInt) :
    Acts this s (s.asyncRecvBytes lib this num).2 ∧
      ∃ o', (s.asyncRecvBytes lib this num).2.table.stream this = .live o' := by
  have hstep := step_asyncRecvBytes hs.table hlive lib num (some this)
  have hinPlace : InPlace (.asyncRecvBytes lib this num (some this) :
    StreamTable.Action κ ω κ) := rfl
  obtain ⟨out, hout, hcall⟩ := asyncRecvBytes_eq hlive lib num
  rw [hcall]
  rw [← hout] at hstep
  refine ⟨hs.acts hinPlace (fun k hk => ?_) hstep rfl, _, Function.update_self _ _ _⟩
  cases hlife : s.table.stream k <;> simp [eventsFor, hlife, Ne.symm hk]

theorem Ok.asyncSendBytes (hs : s.Ok) (hlive : s.table.stream this = .live o) (lib : Libevent)
    (vecBytes : List UInt8) : Acts this s (s.asyncSendBytes lib this vecBytes).2 := by
  have hstep := step_asyncSendBytes hs.table hlive lib vecBytes (some this)
  have hinPlace : InPlace (.asyncSendBytes lib this vecBytes (some this) :
    StreamTable.Action κ ω κ) := rfl
  obtain ⟨out, hout, hcall⟩ := asyncSendBytes_eq hlive lib vecBytes
  rw [hcall]
  rw [← hout] at hstep
  refine hs.acts hinPlace (fun k hk => ?_) hstep rfl
  cases hlife : s.table.stream k <;> simp [eventsFor, hlife, Ne.symm hk]

/-- The entry of a live stream is its connection's, so `_destroy` ends the right one. -/
theorem Ok.destroy_eq (hs : s.Ok) (hlive : s.table.stream this = .live o) :
    s.destroy this =
      { s.setConnection this none with
        table := (s.table.streamDestructor o).setStream this .destroyed
        connectionMap := Function.update s.connectionMap o.fd none } := by
  have hentry : s.connectionMap o.fd = some this := (hs.entry _ _).mpr ⟨o, hlive, rfl⟩
  rw [destroy, hlive]
  simp only [removeConnection, hentry, endConnection, hlive]
  rfl

theorem Ok.destroy (hs : s.Ok) (hlive : s.table.stream this = .live o) :
    Acts this s (s.destroy this) ∧ (s.destroy this).table.stream this = .destroyed := by
  rw [hs.destroy_eq hlive]
  have howns : ∀ fd k, ((s.table.streamDestructor o).setStream this .destroyed).Owns fd
      (.stream k) ↔ s.table.Owns fd (.stream k) ∧ k ≠ this := fun fd k => owns_destroy fd k
  refine ⟨⟨⟨hs.table.step (step_destroy hs.table hlive), hs.sound, hs.bound.destroy hs.table hlive,
    fun k => ?_, fun fd k => ?_⟩, ?_, fun k hk => ?_⟩, ?_⟩
  · simp only [howns, exists_and_right, ← hs.alive k]
    by_cases hk : k = this
    · subst hk
      simp [setConnection]
    · simp [setConnection, hk]
  · rw [howns, ← hs.entry fd k]
    by_cases hfd : fd = o.fd
    · subst hfd
      have hentry : s.connectionMap o.fd = some this := (hs.entry _ _).mpr ⟨o, hlive, rfl⟩
      simp [hentry, eq_comm]
    · have hother : s.connectionMap fd = some k → k ≠ this := by
        rintro hmap rfl
        obtain ⟨o', hlive', rfl⟩ := (hs.entry _ _).mp hmap
        exact hfd (congrArg StreamObject.fd (Life.live.inj (hlive'.symm.trans hlive)))
      have hmap : Function.update s.connectionMap o.fd none fd = s.connectionMap fd :=
        Function.update_of_ne hfd _ _
      exact ⟨fun h => ⟨hmap.symm.trans h, hother (hmap.symm.trans h)⟩, fun h => hmap.trans h.1⟩
  · change ((s.table.streamDestructor o).setStream this .destroyed).running = _
    rw [streamDestructor]
    split_ifs <;> rfl
  · exact ⟨same_destroy hs.table hlive hk, setConnection_of_ne hk⟩
  · rw [stream_destroy, Function.update_self]

theorem Ok.startRecvHead (hs : s.Ok) (hlive : s.table.stream this = .live o) (lib : Libevent) :
    Acts this s (s.startRecvHead lib this) := by
  have hstat := hs.setMembers this fun m => { m with stat := .recvHead }
  obtain ⟨hrecv, o', hlive'⟩ := hstat.ok.asyncRecvBytes hlive lib (.ofNat 4)
  rw [EchoService.startRecvHead, setStat]
  rcases h : EchoService.asyncRecvBytes _ lib this (.ofNat 4) with ⟨_ | _, u⟩
  · rw [h] at hrecv hlive'
    exact (hstat.trans hrecv).trans (hrecv.ok.destroy hlive').1
  · rw [h] at hrecv
    exact hstat.trans hrecv

theorem Ok.recvHeadDone (hs : s.Ok) (hlive : s.table.stream this = .live o) (lib : Libevent)
    (bodyLen : NativeInt) : Acts this s (s.recvHeadDone lib this bodyLen) := by
  rw [EchoService.recvHeadDone]
  split_ifs
  · exact (hs.asyncRecvBytes hlive lib _).1
  · obtain ⟨hrecv, -⟩ := hs.asyncRecvBytes hlive lib bodyLen
    exact hrecv.trans (hrecv.ok.setMembers this _)

theorem Ok.recvBodyDone (hs : s.Ok) (hlive : s.table.stream this = .live o) (lib : Libevent)
    (vecBytes : List UInt8) : Acts this s (s.recvBodyDone lib this vecBytes) := by
  have hbuf := hs.setMembers this fun m =>
    { m with recvBuf := NativeInt.bytesOfNat 4 vecBytes.length ++ vecBytes }
  exact hbuf.trans (hbuf.ok.asyncSendBytes hlive lib _)

omit [DecidableEq κ] in
theorem Ok.connection_eq (hs : s.Ok) (hlive : s.table.stream this = .live o) :
    ∃ m, s.connection this = some m :=
  Option.isSome_iff_exists.mp ((hs.alive this).mpr ⟨o.fd, o, hlive, rfl⟩)

theorem Ok.recvCompleteCallback (hs : s.Ok) (hlive : s.table.stream this = .live o)
    (lib : Libevent) (retRecvStat : StreamStat) (vecBytes : List UInt8) :
    Acts this s (s.recvCompleteCallback lib this retRecvStat vecBytes) := by
  obtain ⟨⟨stat, recvBuf⟩, hm⟩ := hs.connection_eq hlive
  rw [EchoService.recvCompleteCallback, hm]
  by_cases herr : retRecvStat = .recverr
  · simp only [herr, if_true]
    exact (hs.destroy hlive).1
  · simp only [herr, if_false]
    cases stat with
    | recvHead =>
        by_cases hshort : vecBytes.length < 4
        · simp only [hshort, if_true]
          exact (hs.asyncRecvBytes hlive lib _).1
        · simp only [hshort, if_false]
          exact hs.recvHeadDone hlive lib _
    | recvBody => exact hs.recvBodyDone hlive lib vecBytes

theorem Ok.sendCompleteCallback (hs : s.Ok) (hlive : s.table.stream this = .live o)
    (lib : Libevent) (retSendStat : StreamStat) :
    Acts this s (s.sendCompleteCallback lib this retSendStat) := by
  obtain ⟨m, hm⟩ := hs.connection_eq hlive
  rw [EchoService.sendCompleteCallback, hm]
  dsimp only
  split_ifs
  · exact (hs.destroy hlive).1
  · exact hs.startRecvHead hlive lib

omit [DecidableEq κ] in
theorem Ok.returns (hs : s.Ok) : s.returns.Ok :=
  ⟨{ hs.table with }, hs.sound, hs.bound, hs.alive, hs.entry⟩

/-! ## The loop -/

/-- Between two callbacks of the loop none of a stream is running. -/
structure Inv (s : EchoService κ ω) : Prop extends Ok s where
  idle : ∀ this d, s.table.running ≠ some (.onePackCall this d)

/-- A read event that leaves the callbacks of connections alone, or one that ends a
receive and calls the connection of the stream. -/
inductive Receives (s : EchoService κ ω) (lib : Libevent) (fd : ℕ) (res : RecvResult)
    (u : EchoService κ ω) : Prop
  | quiet (t : StreamTable κ ω κ) (h : s.table.step (.readable lib fd res) = some t)
      (hreads : Reads s.table lib fd res t)
      (hquiet : ∀ this d, t.running ≠ some (.onePackCall this d))
      (hu : u = { s with table := t })
  | reports (t : StreamTable κ ω κ) (h : s.table.step (.readable lib fd res) = some t) (this : κ)
      (o o' : StreamObject κ) (retRecvStat : StreamStat) (vecBytes : List UInt8)
      (hlive : s.table.stream this = .live o) (hfd : o.fd = fd)
      (hpending : (o.fieldsIn s.table.reactor).readPending = true)
      (hmay : (o.fieldsIn s.table.reactor).mayRecv res = true)
      (hlive' : t.stream this = .live o')
      (hpack : (o.fieldsIn s.table.reactor).recvOnePack
        (StreamObject.addOnePack (StreamObject.fired s.table.reactor fd .read) lib this fd .read).1
          res = (o'.fieldsIn t.reactor, some (retRecvStat, vecBytes)))
      (hu : u = ({ s with table := t }.recvCompleteCallback lib this retRecvStat vecBytes).returns)

theorem Ok.receives (hs : s.Ok) {lib : Libevent} {fd : ℕ} {res : RecvResult}
    (h : EchoService.step s (.readable lib fd res) = some u) : Receives s lib fd res u := by
  rw [EchoService.step, if_neg (by simp [hs.sound])] at h
  obtain ⟨t, ht, hu⟩ := Option.map_eq_some_iff.mp h
  have hreads := hs.table.reads ht
  cases hreads with
  | eventFd call hown hrunning =>
      refine .quiet t ht (.eventFd call hown hrunning) (by simp [hrunning]) ?_
      rw [← hu, complete, hrunning]
  | stream this o o' call hlive hfd hpending hmay hlive' hpack hrunning =>
      cases call with
      | none =>
          refine .quiet t ht (.stream this o o' none hlive hfd hpending hmay hlive' hpack hrunning)
            (by simp [hrunning]) ?_
          rw [← hu, complete, hrunning]
          rfl
      | some call =>
          obtain ⟨retRecvStat, vecBytes⟩ := call
          obtain ⟨hcb, rfl, rfl⟩ := StreamFields.recvOnePack_reports hpack
          have hcb' : o'.recvCompleteCallback = some this :=
            hcb.trans ((hs.bound this o hlive).recv hpending)
          refine .reports t ht this o o' _ _ hlive hfd hpending hmay hlive' hpack ?_
          rw [← hu]
          simp only [complete, hrunning, Option.map_some, hlive', hcb']
          rfl

inductive Sends (s : EchoService κ ω) (lib : Libevent) (fd : ℕ) (res : SendResult)
    (u : EchoService κ ω) : Prop
  | quiet (t : StreamTable κ ω κ) (h : s.table.step (.writable lib fd res) = some t)
      (hwrites : Writes s.table lib fd res t)
      (hquiet : ∀ this d, t.running ≠ some (.onePackCall this d))
      (hu : u = { s with table := t })
  | reports (t : StreamTable κ ω κ) (h : s.table.step (.writable lib fd res) = some t) (this : κ)
      (o o' : StreamObject κ) (retSendStat : StreamStat)
      (hlive : s.table.stream this = .live o) (hfd : o.fd = fd)
      (hpending : (o.fieldsIn s.table.reactor).writePending = true)
      (hmay : (o.fieldsIn s.table.reactor).maySend res = true)
      (hlive' : t.stream this = .live o')
      (hpack : (o.fieldsIn s.table.reactor).sendOnePack
        (StreamObject.addOnePack (StreamObject.fired s.table.reactor fd .write) lib this fd
          .write).1 res = (o'.fieldsIn t.reactor, some retSendStat))
      (hu : u = ({ s with table := t }.sendCompleteCallback lib this retSendStat).returns)

theorem Ok.sends (hs : s.Ok) {lib : Libevent} {fd : ℕ} {res : SendResult}
    (h : EchoService.step s (.writable lib fd res) = some u) : Sends s lib fd res u := by
  rw [EchoService.step, if_neg (by simp [hs.sound])] at h
  obtain ⟨t, ht, hu⟩ := Option.map_eq_some_iff.mp h
  have hwrites := hs.table.writes ht
  cases hwrites with
  | eventFd call hown hrunning =>
      refine .quiet t ht (.eventFd call hown hrunning) (by simp [hrunning]) ?_
      rw [← hu, complete, hrunning]
  | stream this o o' call hlive hfd hpending hmay hlive' hpack hrunning =>
      cases call with
      | none =>
          refine .quiet t ht (.stream this o o' none hlive hfd hpending hmay hlive' hpack hrunning)
            (by simp [hrunning]) ?_
          rw [← hu, complete, hrunning]
          rfl
      | some retSendStat =>
          obtain ⟨hcb, rfl⟩ := StreamFields.sendOnePack_reports hpack
          have hcb' : o'.sendCompleteCallback = some this :=
            hcb.trans ((hs.bound this o hlive).send hpending)
          refine .reports t ht this o o' _ hlive hfd hpending hmay hlive' hpack ?_
          rw [← hu]
          simp only [complete, hrunning, Option.map_some, hlive', hcb']
          rfl

/-- The connection that a callback of the loop is about. -/
def Concerns (k : κ) (s : EchoService κ ω) : Action κ ω → Prop
  | .outside _ => False
  | .onConnection _ this _ => this = k
  | .readable _ fd _ => s.table.Owns fd (.stream k)
  | .writable _ fd _ => s.table.Owns fd (.stream k)

/-- What is left alone of a connection. -/
structure Untouched (k : κ) (s u : EchoService κ ω) : Prop where
  table : s.table.Same k u.table
  connection : u.connection k = s.connection k

omit [DecidableEq κ] in
theorem Acts.untouched {this k : κ} (h : Acts this s u) (hk : k ≠ this) : Untouched k s u :=
  ⟨(h.same k hk).1, (h.same k hk).2⟩

omit [DecidableEq κ] in
theorem Untouched.trans {k : κ} {s u v : EchoService κ ω} (h : Untouched k s u)
    (h' : Untouched k u v) : Untouched k s v :=
  ⟨h.table.trans h'.table, h'.connection.trans h.connection⟩

omit [DecidableEq κ] in
theorem untouched_returns (k : κ) (s : EchoService κ ω) : Untouched k s s.returns :=
  ⟨⟨rfl, fun _ _ => rfl⟩, rfl⟩

/-- An event on the fd of somebody else. -/
theorem Ok.untouched_of_event (hs : s.Ok) {k : κ} {a : StreamTable.Action κ ω κ} {fd : ℕ}
    {d : Direction} (hfires : a.fires fd d) (hnot : ¬ s.table.Owns fd (.stream k))
    (h : s.table.step a = some t) : Untouched k s { s with table := t } := by
  refine ⟨same_of_inPlace hs.table (inPlace_of_fires hfires) ?_ h, rfl⟩
  cases hlife : s.table.stream k with
  | live o =>
      have hfd : o.fd ≠ fd := fun hfd => hnot ⟨o, hlife, hfd⟩
      cases a with
      | readable lib fd' res =>
          obtain ⟨rfl, rfl⟩ := hfires
          simp [eventsFor, hlife, hfd]
      | writable lib fd' res =>
          obtain ⟨rfl, rfl⟩ := hfires
          simp [eventsFor, hlife, hfd]
      | _ => exact hfires.elim
  | _ => simp [eventsFor, hlife]

theorem Inv.readable (hs : s.Inv) {lib : Libevent} {fd : ℕ} {res : RecvResult}
    (h : EchoService.step s (.readable lib fd res) = some u) :
    u.Inv ∧ ∀ k, ¬ s.table.Owns fd (.stream k) → Untouched k s u := by
  have hfires : (.readable lib fd res : StreamTable.Action κ ω κ).fires fd .read := ⟨rfl, rfl⟩
  have hinPlace := inPlace_of_fires hfires
  cases hs.toOk.receives h with
  | quiet t ht hreads hquiet hu =>
      subst hu
      exact ⟨⟨hs.toOk.inPlace hinPlace ht, hquiet⟩, fun k hk =>
        hs.toOk.untouched_of_event hfires hk ht⟩
  | reports t ht this o o' retRecvStat vecBytes hlive hfd hpending hmay hlive' hpack hu =>
      subst hu
      have hok := hs.toOk.inPlace hinPlace ht
      have hacts := hok.recvCompleteCallback hlive' lib retRecvStat vecBytes
      refine ⟨⟨hacts.ok.returns, by simp [EchoService.returns]⟩, fun k hk => ?_⟩
      have hne : k ≠ this := by
        rintro rfl
        exact hk ⟨o, hlive, hfd⟩
      exact ((hs.toOk.untouched_of_event hfires hk ht).trans
        (hacts.untouched hne)).trans (untouched_returns k _)

theorem Inv.writable (hs : s.Inv) {lib : Libevent} {fd : ℕ} {res : SendResult}
    (h : EchoService.step s (.writable lib fd res) = some u) :
    u.Inv ∧ ∀ k, ¬ s.table.Owns fd (.stream k) → Untouched k s u := by
  have hfires : (.writable lib fd res : StreamTable.Action κ ω κ).fires fd .write := ⟨rfl, rfl⟩
  have hinPlace := inPlace_of_fires hfires
  cases hs.toOk.sends h with
  | quiet t ht hwrites hquiet hu =>
      subst hu
      exact ⟨⟨hs.toOk.inPlace hinPlace ht, hquiet⟩, fun k hk =>
        hs.toOk.untouched_of_event hfires hk ht⟩
  | reports t ht this o o' retSendStat hlive hfd hpending hmay hlive' hpack hu =>
      subst hu
      have hok := hs.toOk.inPlace hinPlace ht
      have hacts := hok.sendCompleteCallback hlive' lib retSendStat
      refine ⟨⟨hacts.ok.returns, by simp [EchoService.returns]⟩, fun k hk => ?_⟩
      have hne : k ≠ this := by
        rintro rfl
        exact hk ⟨o, hlive, hfd⟩
      exact ((hs.toOk.untouched_of_event hfires hk ht).trans
        (hacts.untouched hne)).trans (untouched_returns k _)

/-! ## A new connection -/

/-- A stream just made, its connection made and in the map. -/
def adopt (s : EchoService κ ω) (t : StreamTable κ ω κ) (this : κ) (fd : ℕ) : EchoService κ ω :=
  { s.setConnection this (some ⟨.recvHead, []⟩) with
    table := t
    connectionMap := Function.update s.connectionMap fd (some this) }

omit [DecidableEq κ] in
/-- Nobody's entry is under an fd that has just been accepted. -/
theorem Ok.entry_eq_none (hs : s.Ok) {fd : ℕ} (haccepted : s.table.Owns fd .accepted) :
    s.connectionMap fd = none := by
  cases hmap : s.connectionMap fd with
  | none => rfl
  | some k =>
      have howns := (hs.entry fd k).mp hmap
      cases hs.table.unique fd _ _ haccepted howns

theorem Ok.onConnection_eq (hs : s.Ok) {fd : ℕ} (h : s.table.step (.newStream this fd) = some t)
    (lib : Libevent) :
    { s with table := t }.onConnection lib this fd =
      (s.adopt t this fd).startRecvHead lib this := by
  obtain ⟨haccepted, -⟩ := newStream_spec h
  have hnone := hs.entry_eq_none haccepted
  rw [EchoService.onConnection, addNewConnection]
  simp only [setConnection, hnone]
  rfl

theorem Ok.adopt (hs : s.Ok) {fd : ℕ} (h : s.table.step (.newStream this fd) = some t) :
    (s.adopt t this fd).Ok := by
  obtain ⟨haccepted, -, -, -⟩ := newStream_spec h
  have hnone := hs.entry_eq_none haccepted
  refine ⟨hs.table.step h, hs.sound, hs.bound.newStream hs.table h, fun k => ?_, fun fd' k => ?_⟩
  · change (Function.update s.connection this _ k).isSome = true ↔ ∃ fd', t.Owns fd' (.stream k)
    simp only [owns_newStream h]
    by_cases hk : k = this
    · subst hk
      rw [Function.update_self]
      exact ⟨fun _ => ⟨fd, .inr ⟨rfl, rfl⟩⟩, fun _ => rfl⟩
    · rw [Function.update_of_ne hk, hs.alive k]
      simp [hk]
  · change Function.update s.connectionMap fd (some this) fd' = some k ↔ t.Owns fd' (.stream k)
    rw [owns_newStream h, ← hs.entry fd' k]
    by_cases hfd : fd' = fd
    · subst hfd
      rw [Function.update_self, hnone]
      simp [eq_comm]
    · rw [Function.update_of_ne hfd]
      simp [hfd]

theorem Inv.onConnection (hs : s.Inv) {lib : Libevent} {fd : ℕ}
    (h : EchoService.step s (.onConnection lib this fd) = some u) :
    ∃ t, s.table.step (.newStream this fd) = some t ∧
      u = (s.adopt t this fd).startRecvHead lib this ∧ u.Inv ∧
      ∀ k, k ≠ this → Untouched k s u := by
  rw [EchoService.step, if_neg (by simp [hs.sound])] at h
  split at h
  · next call hrunning =>
      obtain ⟨t, ht, hu⟩ := Option.map_eq_some_iff.mp h
      obtain ⟨-, -, hsame, hborn⟩ := newStream_spec ht
      have hacts := (hs.toOk.adopt ht).startRecvHead hborn lib
      rw [hs.toOk.onConnection_eq ht] at hu
      subst hu
      refine ⟨t, ht, rfl, ⟨hacts.ok, ?_⟩, fun k hk => ?_⟩
      · rw [hacts.running]
        intro this' d hpack
        exact hs.idle this' d (hsame.symm.trans hpack)
      · have hadopted : Untouched k s (s.adopt t this fd) :=
          ⟨same_newStream ht hk, setConnection_of_ne hk⟩
        exact hadopted.trans (hacts.untouched hk)
  · cases h

/-! ## What happens outside of the connections -/

omit [DecidableEq κ] in
theorem outside_spec {a : StreamTable.Action κ ω κ} (ha : Outside a = true) :
    InPlace a ∧ ∀ fd d, ¬ a.fires fd d := by
  cases a with
  | newStream => cases ha
  | asyncRecvBytes => cases ha
  | asyncSendBytes => cases ha
  | readable => cases ha
  | writable => cases ha
  | destroy => cases ha
  | _ => exact ⟨trivial, fun _ _ => id⟩

theorem eventsFor_outside {a : StreamTable.Action κ ω κ} (ha : Outside a = true) (k : κ)
    (t : StreamTable κ ω κ) : eventsFor k t a = [] := by
  cases a with
  | asyncRecvBytes => cases ha
  | asyncSendBytes => cases ha
  | readable => cases ha
  | writable => cases ha
  | _ => cases hlife : t.stream k <;> simp [eventsFor, hlife]

/-- Such an action leaves the loop where it is, or ends the handler of an eventfd. -/
theorem running_outside {a : StreamTable.Action κ ω κ} (ha : Outside a = true)
    (h : s.table.step a = some t) : t.running = s.table.running ∨ t.running = none := by
  obtain ⟨hinPlace, hfires⟩ := outside_spec ha
  obtain ⟨-, hmove⟩ := moves_of_step h
  cases hmove with
  | returns hrunning => exact .inr rfl
  | onEventFd _ fd d call ha' harmed => exact absurd ha' (hfires fd d)
  | recvOnePack => cases ha
  | sendOnePack => cases ha
  | destroy => cases ha
  | newStream => cases ha
  | _ => exact .inl rfl

theorem Inv.outside (hs : s.Inv) {a : StreamTable.Action κ ω κ}
    (h : EchoService.step s (.outside a) = some u) : u.Inv ∧ ∀ k, Untouched k s u := by
  rw [EchoService.step, if_neg (by simp [hs.sound])] at h
  simp only [Option.ite_none_right_eq_some] at h
  obtain ⟨ha, h⟩ := h
  obtain ⟨t, ht, rfl⟩ := Option.map_eq_some_iff.mp h
  obtain ⟨hinPlace, -⟩ := outside_spec ha
  refine ⟨⟨hs.toOk.inPlace hinPlace ht, fun this d hpack => ?_⟩, fun k => ⟨?_, rfl⟩⟩
  · rcases running_outside ha ht with hsame | hnone
    · exact hs.idle this d (hsame.symm.trans hpack)
    · cases hnone.symm.trans hpack
  · exact same_of_inPlace hs.table hinPlace (eventsFor_outside ha k s.table) ht

/-! ## Every run -/

/-- One callback of the loop, and what it leaves alone. -/
theorem Inv.step (hs : s.Inv) {a : Action κ ω} (h : EchoService.step s a = some u) :
    u.Inv ∧ ∀ k, ¬ Concerns k s a → Untouched k s u := by
  cases a with
  | outside a => exact ⟨(hs.outside h).1, fun k _ => (hs.outside h).2 k⟩
  | onConnection lib this fd =>
      obtain ⟨-, -, -, hinv, hsame⟩ := hs.onConnection h
      exact ⟨hinv, fun k hk => hsame k (Ne.symm hk)⟩
  | readable lib fd res => exact hs.readable h
  | writable lib fd res => exact hs.writable h

omit [DecidableEq κ] in
theorem inv_start (maxFds : ℕ) (elsewhere : ℕ → Bool) :
    Inv (start maxFds elsewhere : EchoService κ ω) where
  table := StreamTable.inv_start maxFds elsewhere
  sound := rfl
  bound _ _ hlive := by cases hlive
  alive k := by simp [start, StreamTable.start, Owns]
  entry fd k := by simp [start, StreamTable.start, Owns]
  idle _ _ := nofun

theorem inv_of_run {maxFds : ℕ} {elsewhere : ℕ → Bool} {as : List (Action κ ω)}
    (hrun : run EchoService.step (start maxFds elsewhere) as = some s) : s.Inv :=
  run_invariant (fun _ _ _ hs h => (hs.step h).1) (inv_start maxFds elsewhere) hrun

/-- In every run of the service, with libevent refusing handlers and descriptors given out
again: the map has the living connections, each under the fd of its stream, an event that
is pending for a stream calls the connection under its fd, and no callback has been empty
or has come too late. -/
theorem calls_the_living {maxFds : ℕ} {elsewhere : ℕ → Bool} {as : List (Action κ ω)}
    (hrun : run EchoService.step (start maxFds elsewhere) as = some s) :
    (∀ fd k, s.connectionMap fd = some k ↔ ∃ o, s.table.stream k = .live o ∧ o.fd = fd) ∧
      (∀ k, (s.connection k).isSome = true ↔ ∃ fd, s.connectionMap fd = some k) ∧
      (∀ (fd : ℕ) d k, s.table.reactor.armed fd d = some (some (.onePackCall k d)) →
        s.connectionMap fd = some k ∧ ∃ o, s.table.stream k = .live o ∧
          match d with
          | .read => o.recvCompleteCallback = some k
          | .write => o.sendCompleteCallback = some k) ∧
      (s.failed = false ∧ s.table.failed = false) ∧
      ∀ a u, EchoService.step s a = some u → u.failed = false ∧ u.table.failed = false := by
  have hs := inv_of_run hrun
  refine ⟨hs.entry, fun k => ?_, fun fd d k harmed => ?_, ⟨hs.sound, hs.table.sound⟩,
    fun a u h => ⟨(hs.step h).1.sound, (hs.step h).1.table.sound⟩⟩
  · simp only [hs.alive k, hs.entry]
  · obtain ⟨n, h', hn, hcb, hserves⟩ := hs.table.armed fd d _ harmed
    obtain rfl := Int.natCast_inj.mp hn
    obtain rfl := Option.some.inj hcb
    obtain ⟨-, o, hlive, hfd⟩ := hserves
    refine ⟨(hs.entry _ _).mpr ⟨o, hlive, hfd⟩, o, hlive, ?_⟩
    have hbound := hs.bound k o hlive
    subst hfd
    cases d with
    | read => exact hbound.recv (by simp [StreamObject.fieldsIn, StreamObject.fields, harmed])
    | write => exact hbound.send (by simp [StreamObject.fieldsIn, StreamObject.fields, harmed])

/-- Client 1 closes, and its fd goes to client 2, whose first header cannot be asked for. -/
def threeClients : List (Action (Fin 3) Unit) :=
  [.outside (.createEventFd 4), .outside (.addEventFd .succeeds 4 ()), .outside (.accept 5),
    .readable .succeeds 4 .again, .onConnection .succeeds 0 5,
    .outside (.addEventFd .succeeds 4 ()), .outside .returns, .outside (.accept 6),
    .readable .succeeds 4 .again, .onConnection .succeeds 1 6,
    .outside (.addEventFd .succeeds 4 ()), .outside .returns,
    .readable .succeeds 5 (.data [1, 0, 0, 0]), .readable .succeeds 6 .closed,
    .outside (.accept 6), .readable .succeeds 4 .again,
    .onConnection ⟨true, fun _ => true, fun _ => false⟩ 2 6, .outside .returns,
    .readable .succeeds 5 (.data [97]), .writable .succeeds 5 (.sent 2),
    .writable .succeeds 5 (.sent 3)]

def threeStart : EchoService (Fin 3) Unit := start 60000 fun fd => decide (fd < 3)

theorem run_threeClients : ∃ s, run EchoService.step threeStart threeClients = some s ∧
    s.connectionMap 5 = some 0 ∧ s.connectionMap 6 = none := by
  have hmaps : (run EchoService.step threeStart threeClients).map
      (fun s => (s.connectionMap 5, s.connectionMap 6)) = some (some 0, none) := by
    decide +kernel
  obtain ⟨s, hrun, hmap⟩ := Option.map_eq_some_iff.mp hmaps
  exact ⟨s, hrun, Prod.mk.inj hmap⟩

theorem calls_the_living_threeClients :
    ∃ s, run EchoService.step threeStart threeClients = some s ∧
      (∃ o, s.table.stream 0 = .live o ∧ o.fd = 5) ∧ s.failed = false := by
  obtain ⟨s, hrun, hmap, -⟩ := run_threeClients
  have hcalls := calls_the_living hrun
  exact ⟨s, hrun, (hcalls.1 5 0).mp hmap, hcalls.2.2.2.1.1⟩

end EchoService

end Banana
