import Banana.Library.Transition
import Banana.Network.Stream

/-!
# One send request

`asyncSendBytes` hands over a buffer and `_sendOnePack` runs once for every
write event until the socket has taken all of it.  `Hands` is the state of a
request on its way: what the socket has taken is the front of the buffer, and
the offset is its length.

The receiving side of the stream does not see any of it: without the write
events the same reads return the same bytes to the same callbacks.
-/

namespace Banana

open Transition

/-- The peer has stopped reading, or `send` fails for good. -/
def SendResult.fails : SendResult → Bool
  | .sent _ => false
  | .zero => true
  | .again => false
  | .error => true

namespace Stream

/-- The socket has taken the first `num` bytes of the request for `buf`. -/
structure Hands (st : Stream) (buf : List UInt8) (num : ℕ) : Prop where
  pending : st.writePending = true
  sendBuf : st.sendBuf = buf
  sendLen : st.sendLen = num
  total : st.sendLen + st.needSendLen = buf.length
  short : num < buf.length

variable {st : Stream} {buf : List UInt8} {num : ℕ}

theorem Hands.of_sameSend {st' : Stream} (h : st.Hands buf num) (hsame : SameSend st st') :
    st'.Hands buf num := by
  obtain ⟨hbuf, hlen, hneed, hwrite⟩ := hsame
  exact ⟨hwrite.trans h.pending, hbuf.trans h.sendBuf, hlen.trans h.sendLen,
    by rw [hlen, hneed, h.total], h.short⟩

theorem hands_asyncSendBytes (st : Stream) (hpos : 1 ≤ buf.length) (hle : buf.length ≤ 1024) :
    (st.asyncSendBytes buf).1 = true ∧ (st.asyncSendBytes buf).2.Hands buf 0 := by
  have hnot : ¬ defaultBuffLen < buf.length := by
    rw [defaultBuffLen]
    omega
  rw [asyncSendBytes, if_neg hnot]
  exact ⟨rfl, rfl, rfl, rfl, Nat.zero_add _, hpos⟩

/-! ## One write event -/

/-- What a write event does with a request on its way. -/
inductive Gave (buf : List UInt8) (num : ℕ) : SendResult → Stream × Option StreamStat → Prop
  | again (st' : Stream) (h : st'.Hands buf num) : Gave buf num .again (st', none)
  | more (st' : Stream) (len : ℕ) (h : st'.Hands buf (num + len)) :
      Gave buf num (.sent len) (st', none)
  | all (st' : Stream) (len : ℕ) (hlen : num + len = buf.length)
      (hwrite : st'.writePending = false) : Gave buf num (.sent len) (st', some .sended)
  | zero (st' : Stream) (hwrite : st'.writePending = false) :
      Gave buf num .zero (st', some .senderr)
  | error (st' : Stream) (hwrite : st'.writePending = false) :
      Gave buf num .error (st', some .senderr)

theorem Hands.gave (h : st.Hands buf num) {r : SendResult} (hmay : st.maySend r = true) :
    Gave buf num r (st.sendOnePack r) := by
  cases r with
  | again => exact .again _ ⟨h.pending, h.sendBuf, h.sendLen, h.total, h.short⟩
  | zero => exact .zero _ rfl
  | error => exact .error _ rfl
  | sent len =>
      have hmay : 0 < len ∧ len ≤ st.needSendLen := by simpa [maySend] using hmay
      have htotal := h.total
      have hlen := h.sendLen
      by_cases hlt : len < st.needSendLen
      · rw [sendOnePack, if_pos hlt]
        refine .more _ len ⟨h.pending, h.sendBuf, congrArg (· + len) h.sendLen, ?_, by omega⟩
        change st.sendLen + len + (st.needSendLen - len) = buf.length
        omega
      · rw [sendOnePack, if_neg hlt]
        exact .all _ len (by omega) rfl

/-- The bytes that a write event takes are the next ones of the buffer. -/
theorem Hands.take_append_taken (h : st.Hands buf num) (len : ℕ) :
    buf.take num ++ st.taken (.sent len) = buf.take (num + len) := by
  rw [taken, h.sendBuf, h.sendLen, List.take_add]

/-! ## From the request to its callback -/

/-- What happens on a stream while a request to send is on its way. -/
inductive SendEvent
  | writable (r : SendResult)
  | readable (r : RecvResult)
  | asyncRecvBytes (num : ℤ)

def sendStep (st : Stream) : SendEvent → Option Stream
  | .writable r =>
      if st.writePending = true ∧ st.maySend r = true then some (st.sendOnePack r).1 else none
  | .readable r =>
      if st.readPending = true ∧ st.mayRecv r = true then some (st.recvOnePack r).1 else none
  | .asyncRecvBytes num => some (st.asyncRecvBytes num).2

/-- The number of bytes the socket takes. -/
def SendEvent.count : SendEvent → ℕ
  | .writable (.sent len) => len
  | _ => 0

def SendEvent.fails : SendEvent → Bool
  | .writable r => r.fails
  | _ => false

def handed (st : Stream) : SendEvent → List UInt8
  | .writable r => st.taken r
  | _ => []

/-- The call of the send callback. -/
def sendCalls (st : Stream) : SendEvent → List StreamStat
  | .writable r => (st.sendOnePack r).2.toList
  | _ => []

def wireOf (st : Stream) (es : List SendEvent) : List UInt8 :=
  (trace sendStep st es).flatMap fun p => handed p.1 p.2

def sendCallsOf (st : Stream) (es : List SendEvent) : List StreamStat :=
  (trace sendStep st es).flatMap fun p => sendCalls p.1 p.2

def countOf (es : List SendEvent) : ℕ := (es.map SendEvent.count).sum

/-- A request after the socket has taken `num` bytes. -/
inductive SendRequest (buf : List UInt8) (num : ℕ) (st : Stream) (wire : List UInt8)
    (calls : List StreamStat) : Bool → Prop
  | waits (h : st.Hands buf num) (hwire : wire = buf.take num) (hcalls : calls = []) :
      SendRequest buf num st wire calls false
  | sended (hwrite : st.writePending = false) (hnum : num = buf.length) (hwire : wire = buf)
      (hcalls : calls = [.sended]) : SendRequest buf num st wire calls false
  | senderr (hwrite : st.writePending = false) (hnum : num < buf.length)
      (hwire : wire = buf.take num) (hcalls : calls = [.senderr]) :
      SendRequest buf num st wire calls true

section

variable {wire : List UInt8} {calls : List StreamStat} {failed : Bool}

/-- The receiving side leaves a request alone. -/
theorem SendRequest.of_sameSend {st' : Stream} (h : SendRequest buf num st wire calls failed)
    (hsame : SameSend st st') : SendRequest buf num st' wire calls failed := by
  cases h with
  | waits h hwire hcalls => exact .waits (h.of_sameSend hsame) hwire hcalls
  | sended hwrite hnum hwire hcalls =>
      exact .sended (hsame.2.2.2.trans hwrite) hnum hwire hcalls
  | senderr hwrite hnum hwire hcalls =>
      exact .senderr (hsame.2.2.2.trans hwrite) hnum hwire hcalls

theorem SendRequest.writable {r : SendResult} (h : SendRequest buf num st wire calls failed)
    (hpending : st.writePending = true) (hmay : st.maySend r = true) :
    SendRequest buf (num + SendEvent.count (.writable r)) (st.sendOnePack r).1
      (wire ++ st.taken r) (calls ++ (st.sendOnePack r).2.toList) (failed || r.fails) := by
  cases h with
  | waits h hwire hcalls =>
      subst hwire hcalls
      rw [List.nil_append, Bool.false_or]
      have hgave := h.gave hmay
      generalize st.sendOnePack r = out at hgave
      cases hgave with
      | again st' h' => exact .waits h' (List.append_nil _) rfl
      | more st' len h' => exact .waits h' (h.take_append_taken len) rfl
      | all st' len hlen hwrite =>
          refine .sended hwrite hlen ?_ rfl
          rw [h.take_append_taken, hlen, List.take_length]
      | zero st' hwrite => exact .senderr hwrite h.short (List.append_nil _) rfl
      | error st' hwrite => exact .senderr hwrite h.short (List.append_nil _) rfl
  | sended hwrite _ _ _ => simp [hwrite] at hpending
  | senderr hwrite _ _ _ => simp [hwrite] at hpending

theorem SendRequest.step {st' : Stream} {e : SendEvent}
    (h : SendRequest buf num st wire calls failed) (hstep : sendStep st e = some st') :
    SendRequest buf (num + e.count) st' (wire ++ handed st e) (calls ++ sendCalls st e)
      (failed || e.fails) := by
  cases e with
  | writable r =>
      simp only [sendStep, Option.ite_none_right_eq_some, Option.some.injEq] at hstep
      obtain ⟨⟨hpending, hmay⟩, rfl⟩ := hstep
      exact h.writable hpending hmay
  | readable r =>
      simp only [sendStep, Option.ite_none_right_eq_some, Option.some.injEq] at hstep
      obtain ⟨-, rfl⟩ := hstep
      simpa [SendEvent.count, handed, sendCalls, SendEvent.fails] using
        h.of_sameSend (sameSend_recvOnePack st r)
  | asyncRecvBytes n =>
      obtain rfl := Option.some.inj hstep
      simpa [SendEvent.count, handed, sendCalls, SendEvent.fails] using
        h.of_sameSend (sameSend_asyncRecvBytes st n)

theorem SendRequest.waiting (h : SendRequest buf num st wire calls failed)
    (hcalls : calls = []) :
    st.writePending = true ∧ st.sendLen + st.needSendLen = buf.length := by
  cases h with
  | waits h _ _ => exact ⟨h.pending, h.total⟩
  | sended _ _ _ hdone => simp [hcalls] at hdone
  | senderr _ _ _ hdone => simp [hcalls] at hdone

/-- `send` reads from `&sendBuf_[sendLen_]` on. -/
theorem SendRequest.inside (h : SendRequest buf num st wire calls failed)
    (hpending : st.writePending = true) : st.sendLen + st.needSendLen ≤ st.sendBuf.length := by
  cases h with
  | waits h _ _ => rw [h.total, h.sendBuf]
  | sended hwrite _ _ _ => simp [hwrite] at hpending
  | senderr hwrite _ _ _ => simp [hwrite] at hpending

theorem SendRequest.wire_eq (h : SendRequest buf num st wire calls failed) :
    num ≤ buf.length ∧ wire = buf.take num := by
  cases h with
  | waits h hwire _ => exact ⟨Nat.le_of_lt h.short, hwire⟩
  | sended _ hnum hwire _ => exact ⟨Nat.le_of_eq hnum, by rw [hwire, hnum, List.take_length]⟩
  | senderr _ hnum hwire _ => exact ⟨Nat.le_of_lt hnum, hwire⟩

theorem SendRequest.once (h : SendRequest buf num st wire calls failed) : calls.length ≤ 1 := by
  cases h with
  | waits _ _ hcalls => simp [hcalls]
  | sended _ _ _ hcalls => simp [hcalls]
  | senderr _ _ _ hcalls => simp [hcalls]

theorem SendRequest.sended_iff (h : SendRequest buf num st wire calls failed) :
    .sended ∈ calls ↔ num = buf.length := by
  cases h with
  | waits h _ hcalls =>
      have hne := Nat.ne_of_lt h.short
      simp [hcalls, hne]
  | sended _ hnum _ hcalls => simp [hcalls, hnum]
  | senderr _ hnum _ hcalls =>
      have hne := Nat.ne_of_lt hnum
      simp [hcalls, hne]

theorem SendRequest.senderr_iff (h : SendRequest buf num st wire calls failed) :
    .senderr ∈ calls ↔ failed = true := by
  cases h with
  | waits _ _ hcalls => simp [hcalls]
  | sended _ _ _ hcalls => simp [hcalls]
  | senderr _ _ _ hcalls => simp [hcalls]

theorem SendRequest.early (h : SendRequest buf num st wire calls failed)
    (hfailed : failed = true) : num < buf.length := by
  cases h with
  | senderr _ hnum _ _ => exact hnum
  | _ => simp at hfailed

theorem SendRequest.disarmed (h : SendRequest buf num st wire calls failed)
    (hcalls : calls ≠ []) : st.writePending = false := by
  cases h with
  | waits _ _ hnone => exact absurd hnone hcalls
  | sended hwrite _ _ _ => exact hwrite
  | senderr hwrite _ _ _ => exact hwrite

end

theorem sendRequest_of_run {u : Stream} {es : List SendEvent} (h : st.Hands buf 0)
    (hrun : run sendStep st es = some u) :
    SendRequest buf (countOf es) u (wireOf st es) (sendCallsOf st es)
      (es.any SendEvent.fails) := by
  have hinv := @run_trace_invariant Stream SendEvent sendStep
    (fun s hist => SendRequest buf (countOf (hist.map Prod.snd)) s
      (hist.flatMap fun p => handed p.1 p.2) (hist.flatMap fun p => sendCalls p.1 p.2)
      ((hist.map Prod.snd).any SendEvent.fails))
    (fun _ => True) (fun s hist e t hs _ ht => by
      simpa [countOf] using hs.step ht) st u es (.waits h rfl rfl) (fun _ _ => trivial) hrun
  rwa [trace_map_snd hrun] at hinv

/-! ## The receiving side -/

theorem SameReceive.trans {st' st'' : Stream} (h : SameReceive st st')
    (h' : SameReceive st' st'') : SameReceive st st'' :=
  ⟨h'.readPending.trans h.readPending, h'.recvLen.trans h.recvLen,
    h'.needRecvLen.trans h.needRecvLen, h'.recvBuf.trans h.recvBuf, h'.recvStat.trans h.recvStat⟩

theorem SameReceive.symm {st' : Stream} (h : SameReceive st st') : SameReceive st' st :=
  ⟨h.readPending.symm, h.recvLen.symm, h.needRecvLen.symm, h.recvBuf.symm, h.recvStat.symm⟩

theorem SameReceive.asyncRecvBytes {st' : Stream} (h : SameReceive st st') (n : ℤ) :
    SameReceive (st.asyncRecvBytes n).2 (st'.asyncRecvBytes n).2 := by
  unfold Stream.asyncRecvBytes
  split_ifs
  · exact h
  · exact ⟨rfl, rfl, rfl, congrArg (resize · n.toNat) h.recvBuf, h.recvStat⟩

theorem SameReceive.mayRecv {st' : Stream} (h : SameReceive st st') (r : RecvResult) :
    st'.mayRecv r = st.mayRecv r := by
  cases r with
  | data bytes => rw [Stream.mayRecv, Stream.mayRecv, h.needRecvLen]
  | _ => rfl

theorem SameReceive.store {st' : Stream} (h : SameReceive st st') (bytes : List UInt8) :
    st'.store bytes = st.store bytes := by
  rw [Stream.store, Stream.store, h.recvBuf, h.recvLen]

theorem SameReceive.recvOnePack {st' : Stream} (h : SameReceive st st') (r : RecvResult) :
    SameReceive (st.recvOnePack r).1 (st'.recvOnePack r).1 ∧
      (st'.recvOnePack r).2 = (st.recvOnePack r).2 := by
  cases r with
  | again => exact ⟨⟨h.readPending, h.recvLen, h.needRecvLen, h.recvBuf, rfl⟩, rfl⟩
  | closed =>
      refine ⟨⟨rfl, h.recvLen, h.needRecvLen, h.recvBuf, rfl⟩, ?_⟩
      rw [Stream.recvOnePack, Stream.recvOnePack, h.recvBuf]
  | error =>
      refine ⟨⟨rfl, h.recvLen, h.needRecvLen, h.recvBuf, rfl⟩, ?_⟩
      rw [Stream.recvOnePack, Stream.recvOnePack, h.recvBuf]
  | data bytes =>
      rw [Stream.recvOnePack, Stream.recvOnePack, h.needRecvLen, h.recvLen, h.store]
      split_ifs
      · exact ⟨⟨h.readPending, rfl, rfl, rfl, rfl⟩, rfl⟩
      · exact ⟨⟨rfl, rfl, rfl, rfl, rfl⟩, rfl⟩

/-- The call of the receive callback. -/
def receiveCalls (st : Stream) : SendEvent → List (StreamStat × List UInt8)
  | .readable r => (st.recvOnePack r).2.toList
  | _ => []

def receiveCallsOf (st : Stream) (es : List SendEvent) : List (StreamStat × List UInt8) :=
  (trace sendStep st es).flatMap fun p => receiveCalls p.1 p.2

def SendEvent.isReceive : SendEvent → Bool
  | .writable _ => false
  | _ => true

theorem SameReceive.step {st' u : Stream} {e : SendEvent} (h : SameReceive st st')
    (hreceive : e.isReceive = true) (hstep : sendStep st e = some u) :
    ∃ u', sendStep st' e = some u' ∧ SameReceive u u' ∧
      receiveCalls st' e = receiveCalls st e := by
  cases e with
  | writable r => exact Bool.noConfusion hreceive
  | readable r =>
      simp only [sendStep, Option.ite_none_right_eq_some, Option.some.injEq] at hstep
      obtain ⟨⟨hpending, hmay⟩, rfl⟩ := hstep
      obtain ⟨hsame, hcall⟩ := h.recvOnePack r
      refine ⟨_, if_pos ⟨h.readPending.trans hpending, (h.mayRecv r).trans hmay⟩, hsame, ?_⟩
      rw [receiveCalls, receiveCalls, hcall]
  | asyncRecvBytes n =>
      obtain rfl := Option.some.inj hstep
      exact ⟨_, rfl, h.asyncRecvBytes n, rfl⟩

/-- The write events can be left out of a run: the receiving side ends up the
same and makes the same calls. -/
theorem SameReceive.run {st' u : Stream} {es : List SendEvent} (h : SameReceive st st')
    (hrun : Transition.run sendStep st es = some u) :
    ∃ u', Transition.run sendStep st' (es.filter SendEvent.isReceive) = some u' ∧
      SameReceive u u' ∧
      receiveCallsOf st' (es.filter SendEvent.isReceive) = receiveCallsOf st es := by
  induction es generalizing st st' with
  | nil =>
      obtain rfl := Option.some.inj hrun
      exact ⟨st', rfl, h, rfl⟩
  | cons e es ih =>
      obtain ⟨t, ht, hu⟩ := run_cons_eq_some.mp hrun
      have htrace : receiveCallsOf st (e :: es) = receiveCalls st e ++ receiveCallsOf t es := by
        rw [receiveCallsOf, trace_cons ht, List.flatMap_cons]
        rfl
      by_cases hreceive : e.isReceive = true
      · obtain ⟨t', ht', hsame, hcall⟩ := h.step hreceive ht
        obtain ⟨u', hu', hend, hcalls⟩ := ih hsame hu
        rw [List.filter_cons_of_pos hreceive]
        refine ⟨u', run_cons_eq_some.mpr ⟨t', ht', hu'⟩, hend, ?_⟩
        rw [htrace, receiveCallsOf, trace_cons ht', List.flatMap_cons, hcall, ← hcalls]
        rfl
      · cases e with
        | writable r =>
            simp only [sendStep, Option.ite_none_right_eq_some, Option.some.injEq] at ht
            obtain ⟨-, rfl⟩ := ht
            have hsame := (sameReceive_sendOnePack st r).symm.trans h
            obtain ⟨u', hu', hend, hcalls⟩ := ih hsame hu
            rw [List.filter_cons_of_neg hreceive, htrace]
            exact ⟨u', hu', hend, hcalls⟩
        | _ => exact absurd rfl hreceive

/-- A request to send `buf`, whatever the socket does and however often the
receiving side is used in between. -/
theorem asyncSendBytes_exact (st : Stream) {buf : List UInt8} (hpos : 1 ≤ buf.length)
    (hle : buf.length ≤ 1024) {es : List SendEvent} {u : Stream}
    (hrun : run sendStep (st.asyncSendBytes buf).2 es = some u) :
    (st.asyncSendBytes buf).1 = true ∧
      (sendCallsOf (st.asyncSendBytes buf).2 es = [] →
        u.writePending = true ∧ u.sendLen + u.needSendLen = buf.length) ∧
      (u.writePending = true → u.sendLen + u.needSendLen ≤ u.sendBuf.length) ∧
      countOf es ≤ buf.length ∧
      wireOf (st.asyncSendBytes buf).2 es = buf.take (countOf es) ∧
      (sendCallsOf (st.asyncSendBytes buf).2 es).length ≤ 1 ∧
      (.sended ∈ sendCallsOf (st.asyncSendBytes buf).2 es ↔ countOf es = buf.length) ∧
      (.senderr ∈ sendCallsOf (st.asyncSendBytes buf).2 es ↔ es.any SendEvent.fails = true) ∧
      (es.any SendEvent.fails = true → countOf es < buf.length) ∧
      (sendCallsOf (st.asyncSendBytes buf).2 es ≠ [] → u.writePending = false) ∧
      SameReceive st (st.asyncSendBytes buf).2 ∧
      ∃ v, run sendStep st (es.filter SendEvent.isReceive) = some v ∧ SameReceive u v ∧
        receiveCallsOf st (es.filter SendEvent.isReceive) =
          receiveCallsOf (st.asyncSendBytes buf).2 es := by
  obtain ⟨hok, hhands⟩ := st.hands_asyncSendBytes hpos hle
  have hrequest := sendRequest_of_run hhands hrun
  obtain ⟨hcount, hwire⟩ := hrequest.wire_eq
  have hsame := st.sameReceive_asyncSendBytes buf
  exact ⟨hok, hrequest.waiting, hrequest.inside, hcount, hwire, hrequest.once,
    hrequest.sended_iff, hrequest.senderr_iff, hrequest.early, hrequest.disarmed, hsame,
    hsame.symm.run hrun⟩

def shortWrites : List SendEvent :=
  [.writable (.sent 1), .asyncRecvBytes 4, .writable .again, .writable (.sent 2)]

theorem asyncSendBytes_exact_shortWrites :
    wireOf (new.asyncSendBytes [7, 8, 9]).2 shortWrites = [7, 8, 9] ∧
      .sended ∈ sendCallsOf (new.asyncSendBytes [7, 8, 9]).2 shortWrites := by
  obtain ⟨u, hrun⟩ : ∃ u, run sendStep (new.asyncSendBytes [7, 8, 9]).2 shortWrites = some u :=
    ⟨_, rfl⟩
  obtain ⟨-, -, -, -, hwire, -, hsended, -⟩ :=
    @asyncSendBytes_exact new [7, 8, 9] (by decide) (by decide) shortWrites u hrun
  exact ⟨hwire, hsended.mpr rfl⟩

end Stream

end Banana
