import Banana.Examples.EchoFidelity
import Banana.Examples.EchoService

/-!
# Every client of the echo server

A connection of an `EchoService` against the `ConcurrentConnection` that has a socket of
its own.  The service's object, its stream and what is armed for its fd are one such
connection as long as it lives, and the callbacks do the same to both; the callbacks of the
others leave it alone.  So every client is echoed to as the only one would be.

libevent must not refuse a handler in a callback of that client (`AddsFor`): the connection
alone does not know of it.  It may refuse the others theirs.
-/

namespace Banana

open LibeventReactor Transition

/-! ## Buffers -/

/-- What the buffers of a stream never exceed. -/
structure Stream.Small (st : Stream) : Prop where
  recv : st.recvLen + st.needRecvLen ≤ 1024
  recvBuf : st.recvBuf.length ≤ 1024
  send : st.needSendLen ≤ 1024

namespace Stream

variable {st : Stream}

theorem small_new : new.Small :=
  ⟨Nat.zero_le _, (List.length_replicate ..).le, Nat.zero_le _⟩

theorem Small.asyncRecvBytes (h : st.Small) (num : ℤ) : (st.asyncRecvBytes num).2.Small := by
  rw [Stream.asyncRecvBytes, defaultBuffLen]
  split_ifs with hnum
  · exact h
  · refine ⟨?_, ?_, h.send⟩
    · change 0 + num.toNat ≤ 1024
      omega
    · change (resize st.recvBuf num.toNat).length ≤ 1024
      rw [length_resize]
      omega

theorem Small.asyncSendBytes (h : st.Small) (vecBytes : List UInt8) :
    (st.asyncSendBytes vecBytes).2.Small := by
  rw [Stream.asyncSendBytes, defaultBuffLen]
  split_ifs with hlong
  · exact h
  · exact ⟨h.recv, h.recvBuf, Nat.le_of_not_lt hlong⟩

theorem Small.recvOnePack (h : st.Small) {res : RecvResult} (hmay : st.mayRecv res = true) :
    (st.recvOnePack res).1.Small := by
  cases res with
  | data bytes =>
      have hle : 0 < bytes.length ∧ bytes.length ≤ st.needRecvLen := by
        simpa [mayRecv] using hmay
      have hrecv := h.recv
      have hstore : (st.store bytes).length ≤ 1024 := by
        have hbuf := h.recvBuf
        simp only [store, List.length_append, List.length_take, List.length_drop]
        omega
      rw [Stream.recvOnePack]
      split_ifs
      · refine ⟨?_, hstore, h.send⟩
        change st.recvLen + bytes.length + (st.needRecvLen - bytes.length) ≤ 1024
        omega
      · exact ⟨hrecv, hstore, h.send⟩
  | _ => exact ⟨h.recv, h.recvBuf, h.send⟩

/-- What is handed over lies in the buffer. -/
theorem Small.length_reported (h : st.Small) {res : RecvResult} (hmay : st.mayRecv res = true)
    {retRecvStat : StreamStat} {vecBytes : List UInt8}
    (hcall : (st.recvOnePack res).2 = some (retRecvStat, vecBytes)) : vecBytes.length ≤ 1024 := by
  have hbuf := (h.recvOnePack hmay).recvBuf
  cases res with
  | again => cases hcall
  | data bytes =>
      rw [Stream.recvOnePack] at hcall hbuf
      split_ifs at hcall hbuf
      obtain ⟨rfl, rfl⟩ := Prod.mk.inj (Option.some.inj hcall)
      exact hbuf
  | _ =>
      obtain ⟨rfl, rfl⟩ := Prod.mk.inj (Option.some.inj hcall)
      exact hbuf

theorem Small.sendOnePack (h : st.Small) (res : SendResult) : (st.sendOnePack res).1.Small := by
  have hsame := st.sameReceive_sendOnePack res
  refine ⟨?_, ?_, ?_⟩
  · rw [hsame.recvLen, hsame.needRecvLen]
    exact h.recv
  · rw [hsame.recvBuf]
    exact h.recvBuf
  · cases res with
    | sent len =>
        rw [Stream.sendOnePack]
        split_ifs
        · exact (Nat.sub_le _ _).trans h.send
        · exact h.send
    | _ => exact h.send

end Stream

/-! ## A handler that could be added -/

namespace StreamObject

variable {κ ω Cb : Type*}

theorem addOnePack_succeeds (r : Reactor (Handler κ ω)) (this : κ) (fd : ℕ) (d : Direction) :
    (addOnePack r .succeeds this fd d).1 = true := by
  rw [addOnePack, addEventHandler_mask]
  have hadds := r.addsDirection .succeeds d fd d.mask (some (.onePackCall this d))
  generalize r.addDirection .succeeds d fd d.mask (some (.onePackCall this d)) = out at hadds
  cases hadds with
  | skips hskip => rfl
  | arms hwants hok => rfl
  | fails hwants hnot slot hslot => exact absurd ⟨fun _ => rfl, rfl⟩ hnot

end StreamObject

namespace StreamRequests

variable {Cb : Type*}

theorem asyncRecvBytes_added (r : StreamRequests Cb) (num : ℤ) (cb : Cb) :
    (r.asyncRecvBytes true num (some cb)).1 = (r.stream.asyncRecvBytes num).1 ∧
      (r.asyncRecvBytes true num (some cb)).2.stream = (r.stream.asyncRecvBytes num).2 := by
  unfold asyncRecvBytes Stream.asyncRecvBytes
  by_cases hnum : (Stream.defaultBuffLen : ℤ) < num ∨ num ≤ 0
  · rw [if_pos hnum]
    exact ⟨rfl, rfl⟩
  · rw [if_neg hnum]
    exact ⟨rfl, rfl⟩

theorem asyncSendBytes_added (r : StreamRequests Cb) (vecBytes : List UInt8) (cb : Cb) :
    (r.asyncSendBytes true vecBytes (some cb)).1 = (r.stream.asyncSendBytes vecBytes).1 ∧
      (r.asyncSendBytes true vecBytes (some cb)).2.stream =
        (r.stream.asyncSendBytes vecBytes).2 := by
  unfold asyncSendBytes Stream.asyncSendBytes
  by_cases hlong : Stream.defaultBuffLen < vecBytes.length
  · rw [if_pos hlong]
    exact ⟨rfl, rfl⟩
  · rw [if_neg hlong]
    exact ⟨rfl, rfl⟩

end StreamRequests

namespace EchoService

open StreamTable StreamObject

variable {κ ω : Type*}

/-! ## A connection of the service and the connection alone -/

/-- The object, its stream and what is armed for its fd, as one `ConcurrentConnection`. -/
structure Mirrors (k : κ) (s : EchoService κ ω) (c : ConcurrentConnection) : Prop where
  inMap : c.inMap = true
  members : s.connection k = some ⟨c.stat, c.recvBuf⟩
  small : c.stream.Small
  fields : ∃ o r, s.table.stream k = .live o ∧ r.stream = c.stream ∧
    o.fieldsIn s.table.reactor = .ofRequests r

inductive Shows (k : κ) (s : EchoService κ ω) (c : ConcurrentConnection) : Prop
  | present (h : Mirrors k s c)
  | gone (hgone : s.table.stream k = .destroyed) (hmap : c.inMap = false)

variable {s u : EchoService κ ω} {c : ConcurrentConnection} {k : κ}

theorem Mirrors.untouched (h : Mirrors k s c) (hsame : Untouched k s u) : Mirrors k u c := by
  obtain ⟨o, r, hlive, hstream, hfields⟩ := h.fields
  exact ⟨h.inMap, hsame.connection.trans h.members, h.small, o, r,
    hsame.table.stream.trans hlive, hstream, (hsame.table.fields o hlive).trans hfields⟩

theorem Shows.untouched (h : Shows k s c) (hsame : Untouched k s u) : Shows k u c := by
  cases h with
  | present h => exact .present (h.untouched hsame)
  | gone hgone hmap => exact .gone (hsame.table.stream.trans hgone) hmap

theorem Mirrors.bounded (h : Mirrors k s c) {r : StreamRequests κ} (hstream : r.stream = c.stream) :
    StreamFields.Bounded r := by
  refine ⟨?_, ?_⟩
  · rw [hstream]
    exact (Nat.le_add_left _ _).trans h.small.recv
  · rw [hstream]
    exact h.small.send

variable [DecidableEq κ]

theorem Mirrors.setStat (h : Mirrors k s c) (stat : ConnectionStat) :
    Mirrors k (s.setStat k stat) { c with stat := stat } := by
  refine ⟨h.inMap, ?_, h.small, h.fields⟩
  rw [EchoService.setStat, setConnection_self, h.members]
  rfl

theorem Mirrors.setRecvBuf (h : Mirrors k s c) (recvBuf : List UInt8) :
    Mirrors k (s.setRecvBuf k recvBuf) { c with recvBuf := recvBuf } := by
  refine ⟨h.inMap, ?_, h.small, h.fields⟩
  rw [EchoService.setRecvBuf, setConnection_self, h.members]
  rfl

theorem Mirrors.asyncRecvBytes (h : Mirrors k s c) (num : NativeInt) :
    (s.asyncRecvBytes .succeeds k num).1 = (c.stream.asyncRecvBytes num.val).1 ∧
      Mirrors k (s.asyncRecvBytes .succeeds k num).2
        { c with stream := (c.stream.asyncRecvBytes num.val).2 } := by
  obtain ⟨o, r, hlive, hstream, hfields⟩ := h.fields
  have hfieldsIn := asyncRecvBytes_fieldsIn s.table.reactor .succeeds k o num (some k)
  obtain ⟨hadded, hnext⟩ := r.asyncRecvBytes_added num.val k
  obtain ⟨out, hout, hcall⟩ := asyncRecvBytes_eq hlive .succeeds num
  rw [addOnePack_succeeds, hfields, StreamFields.asyncRecvBytes_ofRequests, hadded,
    ← hout] at hfieldsIn
  obtain ⟨hres, hfields'⟩ := Prod.mk.inj hfieldsIn
  have hsmall := h.small.asyncRecvBytes num.val
  rw [hcall, ← hstream]
  rw [← hstream] at hsmall
  exact ⟨hres.symm, h.inMap, h.members, hsmall, out.2.2, _, Function.update_self _ _ _, hnext,
    hfields'.symm⟩

theorem Mirrors.asyncSendBytes (h : Mirrors k s c) {vecBytes : List UInt8}
    (hsize : vecBytes.length < 2147483648) :
    Mirrors k (s.asyncSendBytes .succeeds k vecBytes).2
      { c with stream := (c.stream.asyncSendBytes vecBytes).2 } := by
  obtain ⟨o, r, hlive, hstream, hfields⟩ := h.fields
  have hfieldsIn := asyncSendBytes_fieldsIn s.table.reactor .succeeds k o vecBytes (some k)
  obtain ⟨-, hnext⟩ := r.asyncSendBytes_added vecBytes k
  obtain ⟨out, hout, hcall⟩ := asyncSendBytes_eq hlive .succeeds vecBytes
  rw [addOnePack_succeeds, hfields, StreamFields.asyncSendBytes_ofRequests r true hsize,
    ← hout] at hfieldsIn
  obtain ⟨-, hfields'⟩ := Prod.mk.inj hfieldsIn
  have hsmall := h.small.asyncSendBytes vecBytes
  rw [hcall, ← hstream]
  rw [← hstream] at hsmall
  exact ⟨h.inMap, h.members, hsmall, out.2.2, _, Function.update_self _ _ _, hnext,
    hfields'.symm⟩

theorem Mirrors.destroy (hs : s.Ok) (h : Mirrors k s c) : Shows k (s.destroy k) c.destroy := by
  obtain ⟨o, r, hlive, -⟩ := h.fields
  exact .gone (hs.destroy hlive).2 rfl

/-- The request for a header is taken. -/
theorem Mirrors.startRecvHead (h : Mirrors k s c) :
    Mirrors k (s.startRecvHead .succeeds k) c.startRecvHead.1 := by
  obtain ⟨htaken, hnext⟩ := (h.setStat .recvHead).asyncRecvBytes (.ofNat 4)
  have hfour : (NativeInt.ofNat 4).val = 4 := by decide
  rw [hfour] at htaken hnext
  rw [c.stream.asyncRecvBytes_four] at htaken
  rw [EchoService.startRecvHead, ConcurrentConnection.startRecvHead_eq]
  rcases hcall : (s.setStat k .recvHead).asyncRecvBytes .succeeds k (.ofNat 4) with ⟨_ | _, u⟩
  · rw [hcall] at htaken
    cases htaken
  · rw [hcall] at hnext
    exact hnext

theorem Mirrors.recvHeadDone (h : Mirrors k s c) (bodyLen : NativeInt) :
    Mirrors k (s.recvHeadDone .succeeds k bodyLen) (c.recvHeadDone bodyLen.val).1 := by
  have hfour : (NativeInt.ofNat 4).val = 4 := by decide
  rw [EchoService.recvHeadDone, ConcurrentConnection.recvHeadDone]
  split_ifs
  · exact hfour ▸ (h.asyncRecvBytes (.ofNat 4)).2
  · exact (h.asyncRecvBytes bodyLen).2.setStat .recvBody

theorem Mirrors.recvBodyDone (h : Mirrors k s c) {vecBytes : List UInt8}
    (hsize : vecBytes.length ≤ 1024) :
    Mirrors k (s.recvBodyDone .succeeds k vecBytes) (c.recvBodyDone vecBytes).1 := by
  refine (h.setRecvBuf _).asyncSendBytes ?_
  rw [List.length_append, NativeInt.length_bytesOfNat]
  omega

theorem Mirrors.recvCompleteCallback (hs : s.Ok) (h : Mirrors k s c) (retRecvStat : StreamStat)
    {vecBytes : List UInt8} (hsize : vecBytes.length ≤ 1024) :
    Shows k (s.recvCompleteCallback .succeeds k retRecvStat vecBytes)
      (c.recvCompleteCallback retRecvStat vecBytes).1 := by
  obtain ⟨stat, recvBuf, stream, inMap⟩ := c
  rw [EchoService.recvCompleteCallback, h.members, ConcurrentConnection.recvCompleteCallback]
  by_cases herr : retRecvStat = .recverr
  · simp only [herr, if_true]
    exact h.destroy hs
  · simp only [herr, if_false]
    cases stat with
    | recvHead =>
        by_cases hshort : vecBytes.length < 4
        · have hfour : (NativeInt.ofNat 4).val = 4 := by decide
          simp only [hshort, if_true]
          exact .present (hfour ▸ (h.asyncRecvBytes (.ofNat 4)).2)
        · simp only [hshort, if_false]
          exact .present (h.recvHeadDone _)
    | recvBody => exact .present (h.recvBodyDone hsize)

theorem Mirrors.sendCompleteCallback (hs : s.Ok) (h : Mirrors k s c) (retSendStat : StreamStat) :
    Shows k (s.sendCompleteCallback .succeeds k retSendStat)
      (c.sendCompleteCallback retSendStat).1 := by
  rw [EchoService.sendCompleteCallback, h.members, ConcurrentConnection.sendCompleteCallback]
  dsimp only
  split_ifs
  · exact h.destroy hs
  · exact .present h.startRecvHead

omit [DecidableEq κ] in
theorem Shows.returns (h : Shows k s c) : Shows k s.returns c :=
  h.untouched (untouched_returns k s)

/-! ## What the loop does for one connection -/

/-- The socket events of a connection: those of the fd that its stream has. -/
def socketEventsFor (k : κ) (s : EchoService κ ω) (a : Action κ ω) : List SocketEvent :=
  match s.table.stream k, a with
  | .live o, .readable _ fd res => if o.fd = fd then [.readable res] else []
  | .live o, .writable _ fd res => if o.fd = fd then [.writable res] else []
  | _, _ => []

/-- The bytes that `send` takes from the buffer of the stream. -/
def sentFor (k : κ) (s : EchoService κ ω) (a : Action κ ω) : List UInt8 :=
  match s.table.stream k, a with
  | .live o, .writable _ fd (.sent len) =>
      if o.fd = fd then (o.sendBuf.drop o.sendLen.toNat).take len else []
  | _, _ => []

def socketEventsOf (k : κ) (s : EchoService κ ω) (as : List (Action κ ω)) : List SocketEvent :=
  (trace step s as).flatMap fun p => socketEventsFor k p.1 p.2

def sentOf (k : κ) (s : EchoService κ ω) (as : List (Action κ ω)) : List UInt8 :=
  (trace step s as).flatMap fun p => sentFor k p.1 p.2

/-- In a callback that is about the connection, libevent refuses nothing. -/
def AddsFor (k : κ) (s : EchoService κ ω) : Action κ ω → Prop
  | .outside _ => True
  | .onConnection lib this _ => this = k → lib = .succeeds
  | .readable lib fd _ => s.table.Owns fd (.stream k) → lib = .succeeds
  | .writable lib fd _ => s.table.Owns fd (.stream k) → lib = .succeeds

omit [DecidableEq κ] in
theorem nothingFor_of_not_concerns {a : Action κ ω} (hnot : ¬ Concerns k s a) :
    socketEventsFor k s a = [] ∧ sentFor k s a = [] := by
  cases hlife : s.table.stream k with
  | live o =>
      cases a with
      | readable lib fd res =>
          have hfd : o.fd ≠ fd := fun hfd => hnot ⟨o, hlife, hfd⟩
          simp [socketEventsFor, sentFor, hlife, hfd]
      | writable lib fd res =>
          have hfd : o.fd ≠ fd := fun hfd => hnot ⟨o, hlife, hfd⟩
          cases res <;> simp [socketEventsFor, sentFor, hlife, hfd]
      | _ => simp [socketEventsFor, sentFor, hlife]
  | _ => simp [socketEventsFor, sentFor, hlife]

omit [DecidableEq κ] in
/-- The stream that has the fd is the one that the event is for. -/
theorem Inv.this_eq (hs : s.Inv) {this : κ} {o o' : StreamObject κ}
    (hlive : s.table.stream k = .live o) (hlive' : s.table.stream this = .live o')
    (hfd : o'.fd = o.fd) : this = k ∧ o' = o := by
  have howns : s.table.Owns o.fd (.stream k) := ⟨o, hlive, rfl⟩
  have howns' : s.table.Owns o.fd (.stream this) := ⟨o', hlive', hfd⟩
  obtain rfl : this = k := by simpa using hs.table.unique o.fd _ _ howns' howns
  exact ⟨rfl, Life.live.inj (hlive'.symm.trans hlive)⟩

omit [DecidableEq κ] in
theorem Mirrors.recvOnePack (h : Mirrors k s c) {t : StreamTable κ ω κ} {o o' : StreamObject κ}
    {res : RecvResult} {call : Option (StreamStat × List UInt8)}
    (hlive : s.table.stream k = .live o) (hlive' : t.stream k = .live o')
    (hpending : (o.fieldsIn s.table.reactor).readPending = true)
    (hmay : (o.fieldsIn s.table.reactor).mayRecv res = true)
    (hpack : (o.fieldsIn s.table.reactor).recvOnePack
      (addOnePack (fired s.table.reactor o.fd .read) .succeeds k o.fd .read).1 res =
        (o'.fieldsIn t.reactor, call)) :
    (c.stream.readPending = true ∧ c.stream.mayRecv res = true) ∧
      (c.stream.recvOnePack res).2 = call ∧
      Mirrors k { s with table := t } { c with stream := (c.stream.recvOnePack res).1 } := by
  obtain ⟨o₀, r, hlive₀, hstream, hfields⟩ := h.fields
  obtain rfl := Life.live.inj (hlive.symm.trans hlive₀)
  rw [hfields] at hpending hmay hpack
  rw [StreamFields.mayRecv_ofRequests (h.bounded hstream), hstream] at hmay
  have hread : c.stream.readPending = true := hstream ▸ hpending
  rw [addOnePack_succeeds, StreamFields.recvOnePack_ofRequests hpending, hstream] at hpack
  obtain ⟨hfields', hcall⟩ := Prod.mk.inj hpack
  exact ⟨⟨hread, hmay⟩, hcall, h.inMap, h.members, h.small.recvOnePack hmay, o', _, hlive', rfl,
    hfields'.symm⟩

omit [DecidableEq κ] in
theorem Mirrors.sendOnePack (h : Mirrors k s c) {t : StreamTable κ ω κ} {o o' : StreamObject κ}
    {res : SendResult} {call : Option StreamStat}
    (hlive : s.table.stream k = .live o) (hlive' : t.stream k = .live o')
    (hpending : (o.fieldsIn s.table.reactor).writePending = true)
    (hmay : (o.fieldsIn s.table.reactor).maySend res = true)
    (hpack : (o.fieldsIn s.table.reactor).sendOnePack
      (addOnePack (fired s.table.reactor o.fd .write) .succeeds k o.fd .write).1 res =
        (o'.fieldsIn t.reactor, call)) :
    (c.stream.writePending = true ∧ c.stream.maySend res = true) ∧
      (c.stream.sendOnePack res).2 = call ∧
      Mirrors k { s with table := t } { c with stream := (c.stream.sendOnePack res).1 } := by
  obtain ⟨o₀, r, hlive₀, hstream, hfields⟩ := h.fields
  obtain rfl := Life.live.inj (hlive.symm.trans hlive₀)
  rw [hfields] at hpending hmay hpack
  rw [StreamFields.maySend_ofRequests (h.bounded hstream), hstream] at hmay
  have hwrite : c.stream.writePending = true := hstream ▸ hpending
  rw [addOnePack_succeeds, StreamFields.sendOnePack_ofRequests hpending, hstream] at hpack
  obtain ⟨hfields', hcall⟩ := Prod.mk.inj hpack
  exact ⟨⟨hwrite, hmay⟩, hcall, h.inMap, h.members, h.small.sendOnePack res, o', _, hlive', rfl,
    hfields'.symm⟩

/-- A read event of the connection is one of the connection alone. -/
theorem Mirrors.readable (hs : s.Inv) (h : Mirrors k s c) {o : StreamObject κ}
    (hlive : s.table.stream k = .live o) {res : RecvResult}
    (hstep : EchoService.step s (.readable .succeeds o.fd res) = some u) :
    ∃ d, ConcurrentConnection.step c (.readable res) = some d ∧ Shows k u d ∧
      u.table.running = none := by
  cases hs.toOk.receives hstep with
  | quiet t ht hreads hquiet hu =>
      subst hu
      cases hreads with
      | eventFd call hown hrunning =>
          have howns : s.table.Owns o.fd (.stream k) := ⟨o, hlive, rfl⟩
          cases hs.table.unique o.fd _ _ hown howns
      | stream this o₁ o' call hlive₁ hfd hpending hmay hlive' hpack hrunning =>
          obtain ⟨rfl, rfl⟩ := hs.this_eq hlive hlive₁ hfd
          obtain rfl : call = none := by
            cases call with
            | none => rfl
            | some call => exact absurd hrunning (hquiet this .read)
          obtain ⟨hguard, hcall, hnext⟩ := h.recvOnePack hlive hlive' hpending hmay hpack
          refine ⟨{ c with stream := (c.stream.recvOnePack res).1 }, ?_, .present hnext, hrunning⟩
          rw [ConcurrentConnection.step_readable, if_pos ⟨h.inMap, hguard⟩]
          rcases hpack' : c.stream.recvOnePack res with ⟨stream, call⟩
          rw [hpack'] at hcall
          subst hcall
          rfl
  | reports t ht this o₁ o' retRecvStat vecBytes hlive₁ hfd hpending hmay hlive' hpack hu =>
      subst hu
      obtain ⟨rfl, rfl⟩ := hs.this_eq hlive hlive₁ hfd
      obtain ⟨hguard, hcall, hnext⟩ := h.recvOnePack hlive hlive' hpending hmay hpack
      have hfires : (.readable .succeeds o₁.fd res : StreamTable.Action κ ω κ).fires o₁.fd .read :=
        ⟨rfl, rfl⟩
      have hok := hs.toOk.inPlace (inPlace_of_fires hfires) ht
      have hsize := h.small.length_reported hguard.2 hcall
      refine ⟨_, ?_, (hnext.recvCompleteCallback hok retRecvStat hsize).returns, rfl⟩
      rw [ConcurrentConnection.step_readable, if_pos ⟨h.inMap, hguard⟩]
      rcases hpack' : c.stream.recvOnePack res with ⟨stream, call⟩
      rw [hpack'] at hcall
      subst hcall
      rfl

theorem Mirrors.writable (hs : s.Inv) (h : Mirrors k s c) {o : StreamObject κ}
    (hlive : s.table.stream k = .live o) {res : SendResult}
    (hstep : EchoService.step s (.writable .succeeds o.fd res) = some u) :
    ∃ d, ConcurrentConnection.step c (.writable res) = some d ∧ Shows k u d ∧
      u.table.running = none := by
  cases hs.toOk.sends hstep with
  | quiet t ht hwrites hquiet hu =>
      subst hu
      cases hwrites with
      | eventFd call hown hrunning =>
          have howns : s.table.Owns o.fd (.stream k) := ⟨o, hlive, rfl⟩
          cases hs.table.unique o.fd _ _ hown howns
      | stream this o₁ o' call hlive₁ hfd hpending hmay hlive' hpack hrunning =>
          obtain ⟨rfl, rfl⟩ := hs.this_eq hlive hlive₁ hfd
          obtain rfl : call = none := by
            cases call with
            | none => rfl
            | some call => exact absurd hrunning (hquiet this .write)
          obtain ⟨hguard, hcall, hnext⟩ := h.sendOnePack hlive hlive' hpending hmay hpack
          refine ⟨{ c with stream := (c.stream.sendOnePack res).1 }, ?_, .present hnext, hrunning⟩
          rw [ConcurrentConnection.step_writable, if_pos ⟨h.inMap, hguard⟩]
          rcases hpack' : c.stream.sendOnePack res with ⟨stream, call⟩
          rw [hpack'] at hcall
          subst hcall
          rfl
  | reports t ht this o₁ o' retSendStat hlive₁ hfd hpending hmay hlive' hpack hu =>
      subst hu
      obtain ⟨rfl, rfl⟩ := hs.this_eq hlive hlive₁ hfd
      obtain ⟨hguard, hcall, hnext⟩ := h.sendOnePack hlive hlive' hpending hmay hpack
      have hfires : (.writable .succeeds o₁.fd res : StreamTable.Action κ ω κ).fires o₁.fd
          .write := ⟨rfl, rfl⟩
      have hok := hs.toOk.inPlace (inPlace_of_fires hfires) ht
      refine ⟨_, ?_, (hnext.sendCompleteCallback hok retSendStat).returns, rfl⟩
      rw [ConcurrentConnection.step_writable, if_pos ⟨h.inMap, hguard⟩]
      rcases hpack' : c.stream.sendOnePack res with ⟨stream, call⟩
      rw [hpack'] at hcall
      subst hcall
      rfl

omit [DecidableEq κ] in
/-- What `send` takes is the same for both. -/
theorem Mirrors.sentFor_eq (h : Mirrors k s c) {o : StreamObject κ}
    (hlive : s.table.stream k = .live o) (lib : Libevent) (res : SendResult) :
    sentFor k s (.writable lib o.fd res) = c.stream.taken res := by
  obtain ⟨o₀, r, hlive₀, hstream, hfields⟩ := h.fields
  obtain rfl := Life.live.inj (hlive.symm.trans hlive₀)
  have hbuf : o.sendBuf = r.stream.sendBuf := congrArg StreamFields.sendBuf hfields
  have hlen : o.sendLen = r.stream.sendLen := congrArg StreamFields.sendLen hfields
  cases res with
  | sent len =>
      simp only [sentFor, hlive, if_true]
      rw [hbuf, hlen, Int.toNat_natCast, hstream]
      rfl
  | _ => simp [sentFor, hlive, Stream.taken]

/-- A new connection is the connection alone at its start. -/
theorem shows_onConnection (hs : s.Inv) {fd : ℕ}
    (h : EchoService.step s (.onConnection .succeeds k fd) = some u) :
    s.table.stream k = .unborn ∧ Mirrors k u .start := by
  obtain ⟨t, ht, hu, -, -⟩ := hs.onConnection h
  obtain ⟨-, hunborn, -, hborn⟩ := newStream_spec ht
  subst hu
  have hadopted : Mirrors k (s.adopt t k fd) ⟨.recvHead, [], .new, true⟩ :=
    ⟨rfl, setConnection_self, Stream.small_new, .new fd, .new, hborn, rfl,
      (fieldsIn_newStream hs.table ht).trans rfl⟩
  exact ⟨hunborn, hadopted.startRecvHead⟩

/-! ## Every run -/

/-- The connection alone, after the socket events that were for it. -/
structure Follows (k : κ) (s : EchoService κ ω) (es : List SocketEvent) (sent : List UInt8) :
    Prop where
  unborn : s.table.stream k = .unborn → es = [] ∧ sent = []
  born : s.table.stream k ≠ .unborn → ∃ c, run ConcurrentConnection.step .start es = some c ∧
    sent = ConcurrentConnection.sentIn es ∧ Shows k s c

omit [DecidableEq κ] in
theorem follows_start (k : κ) (maxFds : ℕ) (elsewhere : ℕ → Bool) :
    Follows k (start maxFds elsewhere : EchoService κ ω) [] [] :=
  ⟨fun _ => ⟨rfl, rfl⟩, fun hborn => absurd rfl hborn⟩

omit [DecidableEq κ] in
theorem Follows.untouched {es : List SocketEvent} {sent : List UInt8} (hf : Follows k s es sent)
    (hsame : Untouched k s u) : Follows k u es sent := by
  refine ⟨fun hunborn => hf.unborn (hsame.table.stream.symm.trans hunborn), fun hborn => ?_⟩
  obtain ⟨c, hrun, hsent, hshows⟩ := hf.born fun hunborn =>
    hborn (hsame.table.stream.trans hunborn)
  exact ⟨c, hrun, hsent, hshows.untouched hsame⟩

omit [DecidableEq κ] in
theorem Shows.born (h : Shows k s c) : s.table.stream k ≠ .unborn := by
  intro hunborn
  cases h with
  | present h =>
      obtain ⟨o, -, hlive, -⟩ := h.fields
      cases hunborn.symm.trans hlive
  | gone hgone hmap => cases hunborn.symm.trans hgone

omit [DecidableEq κ] in
theorem Shows.mirrors (h : Shows k s c) {o : StreamObject κ}
    (hlive : s.table.stream k = .live o) : Mirrors k s c := by
  cases h with
  | present h => exact h
  | gone hgone hmap => cases hlive.symm.trans hgone

omit [DecidableEq κ] in
theorem Shows.follows {es : List SocketEvent} {sent : List UInt8} (h : Shows k s c)
    (hrun : run ConcurrentConnection.step .start es = some c)
    (hsent : sent = ConcurrentConnection.sentIn es) : Follows k s es sent :=
  ⟨fun hunborn => absurd hunborn h.born, fun _ => ⟨c, hrun, hsent, h⟩⟩

theorem sentIn_concat {es : List SocketEvent} {e : SocketEvent}
    (hrun : run ConcurrentConnection.step .start es = some c) :
    ConcurrentConnection.sentIn (es ++ [e]) = ConcurrentConnection.sentIn es ++ c.sent e := by
  rw [ConcurrentConnection.sentIn, trace_concat hrun, List.flatMap_append,
    List.flatMap_singleton]
  rfl

theorem Follows.step {es : List SocketEvent} {sent : List UInt8} {a : Action κ ω}
    (hf : Follows k s es sent) (hs : s.Inv) (hadds : AddsFor k s a)
    (h : EchoService.step s a = some u) :
    Follows k u (es ++ socketEventsFor k s a) (sent ++ sentFor k s a) := by
  by_cases hconcerns : Concerns k s a
  · cases a with
    | outside a => exact hconcerns.elim
    | onConnection lib this fd =>
        obtain rfl : this = k := hconcerns
        obtain rfl : lib = .succeeds := hadds rfl
        obtain ⟨hunborn, hmirrors⟩ := shows_onConnection hs h
        obtain ⟨rfl, rfl⟩ := hf.unborn hunborn
        have hevents : socketEventsFor this s (.onConnection .succeeds this fd) = [] := by
          simp [socketEventsFor, hunborn]
        have hsent : sentFor this s (.onConnection .succeeds this fd) = [] := by
          simp [sentFor, hunborn]
        rw [hevents, hsent]
        exact Shows.follows (.present hmirrors) rfl rfl
    | readable lib fd res =>
        obtain rfl : lib = .succeeds := hadds hconcerns
        obtain ⟨o, hlive, rfl⟩ := hconcerns
        obtain ⟨c, hrun, hsent, hshows⟩ := hf.born (by simp [hlive])
        obtain ⟨d, hd, hnext, -⟩ := (hshows.mirrors hlive).readable hs hlive h
        have hevents : socketEventsFor k s (.readable .succeeds o.fd res) = [.readable res] := by
          simp [socketEventsFor, hlive]
        have hnone : sentFor k s (.readable .succeeds o.fd res) = [] := by simp [sentFor, hlive]
        rw [hevents, hnone, hsent]
        refine hnext.follows (run_concat_eq_some.mpr ⟨c, hrun, hd⟩) ?_
        rw [sentIn_concat hrun]
        rfl
    | writable lib fd res =>
        obtain rfl : lib = .succeeds := hadds hconcerns
        obtain ⟨o, hlive, rfl⟩ := hconcerns
        obtain ⟨c, hrun, hsent, hshows⟩ := hf.born (by simp [hlive])
        have hmirrors := hshows.mirrors hlive
        obtain ⟨d, hd, hnext, -⟩ := hmirrors.writable hs hlive h
        have hevents : socketEventsFor k s (.writable .succeeds o.fd res) = [.writable res] := by
          simp [socketEventsFor, hlive]
        rw [hevents, hmirrors.sentFor_eq hlive, hsent]
        refine hnext.follows (run_concat_eq_some.mpr ⟨c, hrun, hd⟩) ?_
        rw [sentIn_concat hrun]
        rfl
  · obtain ⟨hevents, hsent⟩ := nothingFor_of_not_concerns hconcerns
    rw [hevents, hsent, List.append_nil, List.append_nil]
    exact hf.untouched ((hs.step h).2 k hconcerns)

theorem follows_of_run {maxFds : ℕ} {elsewhere : ℕ → Bool} {as : List (Action κ ω)}
    (hrun : run EchoService.step (start maxFds elsewhere) as = some s) {k : κ}
    (hadds : Along (AddsFor k) EchoService.step (start maxFds elsewhere) as) :
    Follows k s (socketEventsOf k (start maxFds elsewhere) as)
      (sentOf k (start maxFds elsewhere) as) := by
  have hstep : ∀ (s : EchoService κ ω) hist a t,
      s.Inv ∧ Follows k s (hist.flatMap fun p => socketEventsFor k p.1 p.2)
        (hist.flatMap fun p => sentFor k p.1 p.2) → AddsFor k s a →
      EchoService.step s a = some t →
      t.Inv ∧ Follows k t ((hist ++ [(s, a)]).flatMap fun p => socketEventsFor k p.1 p.2)
        ((hist ++ [(s, a)]).flatMap fun p => sentFor k p.1 p.2) := by
    intro s hist a t hs hadd ht
    refine ⟨(hs.1.step ht).1, ?_⟩
    simpa using hs.2.step hs.1 hadd ht
  exact (run_trace_invariant_along hstep (h := [])
    ⟨inv_start maxFds elsewhere, follows_start k maxFds elsewhere⟩ hadds hrun).2

/-! ## The loop can serve the connection -/

theorem isSome_readable {t : StreamTable κ ω κ} (ht : t.Inv) (hidle : t.running = none)
    {o : StreamObject κ} (hlive : t.stream k = .live o) {res : RecvResult}
    (hpending : (o.fieldsIn t.reactor).readPending = true)
    (hmay : (o.fieldsIn t.reactor).mayRecv res = true) (lib : Libevent) :
    ∃ u, t.step (.readable lib o.fd res) = some u := by
  obtain ⟨cb, harmed⟩ := Option.isSome_iff_exists.mp hpending
  obtain ⟨n, call, hn, rfl, hserves⟩ := ht.armed _ _ _ harmed
  obtain rfl := Int.natCast_inj.mp hn
  have howns : t.Owns o.fd (.stream k) := ⟨o, hlive, rfl⟩
  have hmay' : (o.fields true true).mayRecv res = true := by
    cases res <;> exact hmay
  have hfire : t.mayFire o.fd .read := by
    rw [Reactor.armed, Option.ite_none_right_eq_some] at harmed
    exact ⟨hidle, harmed.1⟩
  cases call with
  | onEventFd call =>
      have hown : t.Owns o.fd .eventFd := hserves
      cases ht.unique o.fd _ _ hown howns
  | onePackCall this d =>
      obtain ⟨rfl, howns'⟩ := hserves
      obtain rfl : this = k := by simpa using ht.unique o.fd _ _ howns' howns
      simp [StreamTable.step, ht.sound, hfire, callback_of_armed harmed, onReadable, hlive, hmay']

theorem isSome_writable {t : StreamTable κ ω κ} (ht : t.Inv) (hidle : t.running = none)
    {o : StreamObject κ} (hlive : t.stream k = .live o) {res : SendResult}
    (hpending : (o.fieldsIn t.reactor).writePending = true)
    (hmay : (o.fieldsIn t.reactor).maySend res = true) (lib : Libevent) :
    ∃ u, t.step (.writable lib o.fd res) = some u := by
  obtain ⟨cb, harmed⟩ := Option.isSome_iff_exists.mp hpending
  obtain ⟨n, call, hn, rfl, hserves⟩ := ht.armed _ _ _ harmed
  obtain rfl := Int.natCast_inj.mp hn
  have howns : t.Owns o.fd (.stream k) := ⟨o, hlive, rfl⟩
  have hmay' : (o.fields true true).maySend res = true := by
    cases res <;> exact hmay
  have hfire : t.mayFire o.fd .write := by
    rw [Reactor.armed, Option.ite_none_right_eq_some] at harmed
    exact ⟨hidle, harmed.1⟩
  cases call with
  | onEventFd call =>
      have hown : t.Owns o.fd .eventFd := hserves
      cases ht.unique o.fd _ _ hown howns
  | onePackCall this d =>
      obtain ⟨rfl, howns'⟩ := hserves
      obtain rfl : this = k := by simpa using ht.unique o.fd _ _ howns' howns
      simp [StreamTable.step, ht.sound, hfire, callback_of_armed harmed, onWritable, hlive, hmay']

/-- What the connection alone can do, the loop can do for it. -/
theorem Mirrors.enabled (hs : s.Inv) (h : Mirrors k s c) (hidle : s.table.running = none)
    {e : SocketEvent} {d : ConcurrentConnection} (hd : ConcurrentConnection.step c e = some d) :
    ∃ a u, EchoService.step s a = some u ∧ AddsFor k s a ∧ socketEventsFor k s a = [e] ∧
      Shows k u d ∧ u.table.running = none := by
  obtain ⟨o, r, hlive, hstream, hfields⟩ := h.fields
  have hbounded := h.bounded hstream
  cases e with
  | readable res =>
      have hguard : c.stream.readPending = true ∧ c.stream.mayRecv res = true := by
        by_contra hnot
        simp [ConcurrentConnection.step_readable, h.inMap, hnot] at hd
      obtain ⟨t, ht⟩ := isSome_readable hs.table hidle hlive
        (by rw [hfields, ← hguard.1, ← hstream]; rfl)
        (by rw [hfields, StreamFields.mayRecv_ofRequests hbounded, hstream]; exact hguard.2)
        .succeeds
      have hstep : EchoService.step s (.readable .succeeds o.fd res) =
          some ({ s with table := t }.complete .succeeds) := by
        simp [EchoService.step, hs.sound, ht]
      obtain ⟨d', hd', hnext, hrunning⟩ := h.readable hs hlive hstep
      obtain rfl := Option.some.inj (hd'.symm.trans hd)
      exact ⟨_, _, hstep, fun _ => rfl, by simp [socketEventsFor, hlive], hnext, hrunning⟩
  | writable res =>
      have hguard : c.stream.writePending = true ∧ c.stream.maySend res = true := by
        by_contra hnot
        simp [ConcurrentConnection.step_writable, h.inMap, hnot] at hd
      obtain ⟨t, ht⟩ := isSome_writable hs.table hidle hlive
        (by rw [hfields, ← hguard.1, ← hstream]; rfl)
        (by rw [hfields, StreamFields.maySend_ofRequests hbounded, hstream]; exact hguard.2)
        .succeeds
      have hstep : EchoService.step s (.writable .succeeds o.fd res) =
          some ({ s with table := t }.complete .succeeds) := by
        simp [EchoService.step, hs.sound, ht]
      obtain ⟨d', hd', hnext, hrunning⟩ := h.writable hs hlive hstep
      obtain rfl := Option.some.inj (hd'.symm.trans hd)
      exact ⟨_, _, hstep, fun _ => rfl, by simp [socketEventsFor, hlive], hnext, hrunning⟩

/-! ## The loop can go on for the connection -/

theorem socketEventsOf_append {as : List (Action κ ω)} (hrun : run EchoService.step s as = some u)
    (bs : List (Action κ ω)) :
    socketEventsOf k s (as ++ bs) = socketEventsOf k s as ++ socketEventsOf k u bs := by
  rw [socketEventsOf, trace_append hrun, List.flatMap_append]
  rfl

theorem socketEventsOf_cons {a : Action κ ω} (h : EchoService.step s a = some u)
    (as : List (Action κ ω)) :
    socketEventsOf k s (a :: as) = socketEventsFor k s a ++ socketEventsOf k u as := by
  rw [socketEventsOf, trace_cons h, List.flatMap_cons]
  rfl

/-- The handler of an eventfd that runs can return. -/
theorem exists_idle (hs : s.Inv) (k : κ) :
    ∃ bs u, run EchoService.step s bs = some u ∧ Along (AddsFor k) EchoService.step s bs ∧
      socketEventsOf k s bs = [] ∧ Untouched k s u ∧ u.table.running = none := by
  by_cases hidle : s.table.running = none
  · exact ⟨[], s, rfl, along_nil s, rfl, ⟨.refl _ _, rfl⟩, hidle⟩
  · have hstep : EchoService.step s (.outside .returns) = some s.returns := by
      simp [EchoService.step, hs.sound, Outside, StreamTable.step, hs.table.sound, hidle,
        EchoService.returns]
    have hnothing : socketEventsFor k s (.outside .returns) = [] :=
      (nothingFor_of_not_concerns id).1
    refine ⟨[.outside .returns], s.returns, ?_, ?_, ?_, untouched_returns k s, rfl⟩
    · rw [run_singleton, hstep]
    · exact (along_cons hstep).mpr ⟨trivial, along_nil _⟩
    · rw [socketEventsOf_cons hstep, hnothing]
      rfl

theorem Shows.continues (hs : s.Inv) (h : Shows k s c) (hidle : s.table.running = none)
    {es : List SocketEvent} {d : ConcurrentConnection}
    (hrun : run ConcurrentConnection.step c es = some d) :
    ∃ bs u, run EchoService.step s bs = some u ∧ Along (AddsFor k) EchoService.step s bs ∧
      socketEventsOf k s bs = es ∧ Shows k u d := by
  induction es generalizing s c with
  | nil =>
      obtain rfl := Option.some.inj hrun
      exact ⟨[], s, rfl, along_nil s, rfl, h⟩
  | cons e es ih =>
      obtain ⟨c', hc', hrest⟩ := run_cons_eq_some.mp hrun
      cases h with
      | gone hgone hmap => cases e <;> simp [ConcurrentConnection.step, ConcurrentConnection.react, hmap] at hc'
      | present h =>
          obtain ⟨a, t, ht, hadds, hevents, hshows, hidle'⟩ := h.enabled hs hidle hc'
          obtain ⟨bs, u, hu, hal, hes, hlast⟩ := ih (hs.step ht).1 hshows hidle' hrest
          refine ⟨a :: bs, u, run_cons_eq_some.mpr ⟨t, ht, hu⟩, (along_cons ht).mpr ⟨hadds, hal⟩,
            ?_, hlast⟩
          rw [socketEventsOf_cons ht, hevents, hes, List.singleton_append]

/-- Whatever the connection alone does next, the service can do for it. -/
theorem Shows.extends (hs : s.Inv) (h : Shows k s c) {es : List SocketEvent}
    {d : ConcurrentConnection} (hrun : run ConcurrentConnection.step c es = some d) :
    ∃ bs u, run EchoService.step s bs = some u ∧ Along (AddsFor k) EchoService.step s bs ∧
      socketEventsOf k s bs = es ∧ Shows k u d := by
  obtain ⟨bs₁, t, ht, hal₁, hnone, hsame, hidle⟩ := exists_idle hs k
  have ht' : t.Inv := run_invariant (fun _ _ _ hs h => (hs.step h).1) hs ht
  obtain ⟨bs₂, u, hu, hal₂, hes, hlast⟩ := (h.untouched hsame).continues ht' hidle hrun
  refine ⟨bs₁ ++ bs₂, u, ?_, (along_append ht).mpr ⟨hal₁, hal₂⟩, ?_, hlast⟩
  · rw [run_append, ht, Option.bind_some, hu]
  · rw [socketEventsOf_append ht, hnone, hes, List.nil_append]

/-! ## What a client sees -/

/-- A client that has been accepted is served as if it were the only one, whatever the others
do and whatever libevent refuses to them: the connection has had the events of its own socket
and has sent what it sends for them, and what it could do next is left to it. -/
theorem serves_as_alone {maxFds : ℕ} {elsewhere : ℕ → Bool} {as : List (Action κ ω)}
    (hrun : run EchoService.step (start maxFds elsewhere) as = some s) {k : κ}
    (hborn : s.table.stream k ≠ .unborn)
    (hadds : Along (AddsFor k) EchoService.step (start maxFds elsewhere) as) :
    ∃ c, run ConcurrentConnection.step .start (socketEventsOf k (start maxFds elsewhere) as) =
        some c ∧
      sentOf k (start maxFds elsewhere) as =
        ConcurrentConnection.sentIn (socketEventsOf k (start maxFds elsewhere) as) ∧
      Shows k s c ∧
      ∀ es d, run ConcurrentConnection.step c es = some d →
        ∃ bs u, run EchoService.step s bs = some u ∧ Along (AddsFor k) EchoService.step s bs ∧
          socketEventsOf k s bs = es ∧ Shows k u d := by
  obtain ⟨c, hc, hsent, hshows⟩ := (follows_of_run hrun hadds).born hborn
  exact ⟨c, hc, hsent, hshows, fun es d hd => hshows.extends (inv_of_run hrun) hd⟩

theorem born_threeClients {s : EchoService (Fin 3) Unit}
    (hrun : run EchoService.step threeStart threeClients = some s) :
    s.table.stream 0 ≠ .unborn := by
  obtain ⟨u, hu, hmap, -⟩ := run_threeClients
  obtain rfl := Option.some.inj (hu.symm.trans hrun)
  obtain ⟨o, hlive, -⟩ := ((inv_of_run hrun).entry 5 0).mp hmap
  simp [hlive]

theorem adds_threeClients : Along (AddsFor 0) EchoService.step threeStart threeClients :=
  along_of_forall (I := fun _ => True) (A := fun a => ∀ s, AddsFor 0 s a)
    (fun _ _ _ _ _ => trivial) (fun s _ _ h => h s) trivial (by simp [threeClients, AddsFor])

theorem serves_as_alone_threeClients :
    sentOf 0 threeStart threeClients = [1, 0, 0, 0, 97] ∧
      ∃ c, run ConcurrentConnection.step .start (socketEventsOf 0 threeStart threeClients) =
          some c ∧
        ConcurrentConnection.sentIn (socketEventsOf 0 threeStart threeClients) =
          [1, 0, 0, 0, 97] := by
  obtain ⟨s, hrun, -⟩ := run_threeClients
  obtain ⟨c, hc, hsent, -⟩ := serves_as_alone hrun (born_threeClients hrun) adds_threeClients
  have hbytes : sentOf 0 threeStart threeClients = [1, 0, 0, 0, 97] := by decide +kernel
  exact ⟨hbytes, c, hc, hsent.symm.trans hbytes⟩

omit [DecidableEq κ] in
theorem Shows.mirrors_of_inMap (h : Shows k s c) (hmap : c.inMap = true) : Mirrors k s c := by
  cases h with
  | present h => exact h
  | gone hgone hmap' =>
      rw [hmap] at hmap'
      cases hmap'

omit [DecidableEq κ] in
/-- What is armed for the fd is what is pending for the connection alone. -/
theorem Mirrors.armed (h : Mirrors k s c) :
    ∃ o, s.table.stream k = .live o ∧
      (s.table.reactor.armed o.fd .read).isSome = c.stream.readPending ∧
      (s.table.reactor.armed o.fd .write).isSome = c.stream.writePending := by
  obtain ⟨o, r, hlive, hstream, hfields⟩ := h.fields
  have hread := congrArg StreamFields.readPending hfields
  have hwrite := congrArg StreamFields.writePending hfields
  rw [← hstream]
  exact ⟨o, hlive, hread, hwrite⟩

open ConcurrentConnection in
/-- The echo server, for each client that sends frames of bodies that fit and keeps its
connection open, with any other clients and any use of the descriptors: its connection stays
in the map and waits for one event, what comes back is a part of what has been sent to it, in
order, each frame that has arrived is back once there is nothing left to send, and the rest
can arrive and come back. -/
theorem echoes_to_every_client {maxFds : ℕ} {elsewhere : ℕ → Bool} {as : List (Action κ ω)}
    {bodies : List (List UInt8)} (hfits : ∀ body ∈ bodies, Fits 1020 body)
    (hrun : run EchoService.step (start maxFds elsewhere) as = some s) {k : κ}
    (hborn : s.table.stream k ≠ .unborn)
    (hadds : Along (AddsFor k) EchoService.step (start maxFds elsewhere) as)
    (hdelivers : ∀ e ∈ socketEventsOf k (start maxFds elsewhere) as, e.Delivers)
    (harrived : arrivedIn (socketEventsOf k (start maxFds elsewhere) as) <+: wire bodies) :
    (∃ fd : ℕ, s.connectionMap fd = some k ∧
      (s.table.reactor.armed fd .read).isSome ≠ (s.table.reactor.armed fd .write).isSome ∧
      sentOf k (start maxFds elsewhere) as <+: wire bodies ∧
      ((s.table.reactor.armed fd .write).isSome = false → ∀ done, done <+: bodies →
        wire done <+: arrivedIn (socketEventsOf k (start maxFds elsewhere) as) →
        wire done <+: sentOf k (start maxFds elsewhere) as)) ∧
    ∃ bs u, run EchoService.step (start maxFds elsewhere) (as ++ bs) = some u ∧
      Along (AddsFor k) EchoService.step (start maxFds elsewhere) (as ++ bs) ∧
      (∀ e ∈ socketEventsOf k s bs, e.Delivers) ∧
      arrivedIn (socketEventsOf k (start maxFds elsewhere) (as ++ bs)) = wire bodies ∧
      sentOf k (start maxFds elsewhere) (as ++ bs) = wire bodies := by
  have hs := inv_of_run hrun
  obtain ⟨c, hc, hsent, hshows⟩ := (follows_of_run hrun hadds).born hborn
  have hechoes := echoesFrames_of_fits hfits hc hdelivers harrived
  constructor
  · obtain ⟨o, hlive, hread, hwrite⟩ := (hshows.mirrors_of_inMap hechoes.inMap).armed
    refine ⟨o.fd, (hs.entry _ _).mpr ⟨o, hlive, rfl⟩, ?_, ?_, fun hnone done hdone hwire => ?_⟩
    · rw [hread, hwrite]
      exact hechoes.pending
    · rw [hsent]
      have hprefix : sentIn (socketEventsOf k (start maxFds elsewhere) as) <+:
          wire (handledIn (socketEventsOf k (start maxFds elsewhere) as)) :=
        ⟨c.stream.unsent, hechoes.answered⟩
      exact hprefix.trans (wire_mono hechoes.handled)
    · have hanswered := hechoes.answered
      rw [unsent_of_not_pending (hwrite.symm.trans hnone), List.append_nil] at hanswered
      rw [hsent, hanswered]
      exact wire_mono (hechoes.complete done hdone hwire)
  · obtain ⟨es, d, hd, hdelivers', hall, hback⟩ := hechoes.continues
    rw [run_append, hc, Option.bind_some] at hd
    obtain ⟨bs, u, hu, hal, hes, hlast⟩ := hshows.extends hs hd
    have hlong : run EchoService.step (start maxFds elsewhere) (as ++ bs) = some u := by
      rw [run_append, hrun, Option.bind_some, hu]
    have hadds' := (along_append hrun).mpr ⟨hadds, hal⟩
    have hevents := socketEventsOf_append (k := k) hrun bs
    rw [hes] at hevents
    refine ⟨bs, u, hlong, hadds', hes ▸ hdelivers', hevents ▸ hall, ?_⟩
    obtain ⟨-, -, hsent', -⟩ := (follows_of_run hlong hadds').born hlast.born
    rw [hsent', hevents]
    exact hback

/-- The frame that is back and another one. -/
theorem echoes_to_every_client_threeClients :
    ∃ bs u, run EchoService.step threeStart (threeClients ++ bs) = some u ∧
      sentOf 0 threeStart (threeClients ++ bs) = wire [[97], [98, 99]] := by
  obtain ⟨s, hrun, -⟩ := run_threeClients
  have hdelivers : ∀ e ∈ socketEventsOf 0 threeStart threeClients, e.Delivers := by
    decide +kernel
  have harrived : ConcurrentConnection.arrivedIn (socketEventsOf 0 threeStart threeClients) <+:
      wire [[97], [98, 99]] := by decide +kernel
  have hfits : ∀ body ∈ [[97], [98, 99]], Fits 1020 body := by simp [Fits]
  obtain ⟨-, bs, u, hu, -, -, -, hback⟩ := echoes_to_every_client hfits hrun
    (born_threeClients hrun) adds_threeClients hdelivers harrived
  exact ⟨bs, u, hu, hback⟩

end EchoService

end Banana
