import Banana.Library.Transition
import Banana.Network.Stream

/-!
# One receive request

`asyncRecvBytes` asks for a number of bytes and `_recvOnePack` runs once for
every read event until the request is complete.  `Collects` is the state of a
request on its way: the part that has arrived fills the front of the buffer,
the offset is its length, and the rest of the buffer is still to come.  From
one event to the next only the bytes matter, not how they were cut.
-/

namespace Banana

open Transition

/-- What `recv` takes from the socket. -/
def RecvResult.bytes : RecvResult → List UInt8
  | .data bytes => bytes
  | .closed => []
  | .again => []
  | .error => []

/-- The peer has closed, or `recv` fails for good. -/
def RecvResult.fails : RecvResult → Bool
  | .data _ => false
  | .closed => true
  | .again => false
  | .error => true

namespace Stream

/-- The request that began with the buffer `buf` has got `part` so far. -/
structure Collects (st : Stream) (buf part : List UInt8) : Prop where
  pending : st.readPending = true
  recvLen : st.recvLen = part.length
  total : part.length + st.needRecvLen = buf.length
  short : part.length < buf.length
  recvBuf : st.recvBuf = part ++ buf.drop part.length

variable {st : Stream} {buf part : List UInt8}

theorem Collects.length (h : st.Collects buf part) : st.recvBuf.length = buf.length := by
  have hshort := h.short
  rw [h.recvBuf, List.length_append, List.length_drop]
  omega

theorem Collects.receiving (h : st.Collects buf part) : st.Receiving buf.length where
  pending := h.pending
  total := by rw [h.recvLen, h.total]
  length := h.length

theorem Collects.store (h : st.Collects buf part) (bytes : List UInt8) :
    st.store bytes = part ++ bytes ++ buf.drop (part.length + bytes.length) := by
  rw [Stream.store, h.recvLen, h.recvBuf, List.take_left', List.drop_append]
  · rw [List.drop_eq_nil_of_le (Nat.le_add_right _ _), List.nil_append, List.drop_drop]
    congr 2
    omega
  · rfl

theorem Collects.of_sameReceive {st' : Stream} (h : st.Collects buf part)
    (hread : st'.readPending = st.readPending) (hlen : st'.recvLen = st.recvLen)
    (hneed : st'.needRecvLen = st.needRecvLen) (hbuf : st'.recvBuf = st.recvBuf) :
    st'.Collects buf part where
  pending := hread.trans h.pending
  recvLen := hlen.trans h.recvLen
  total := by rw [hneed, h.total]
  short := h.short
  recvBuf := hbuf.trans h.recvBuf

theorem collects_asyncRecvBytes (st : Stream) {num : ℤ} (hpos : 1 ≤ num) (hle : num ≤ 1024) :
    (st.asyncRecvBytes num).1 = true ∧
      (st.asyncRecvBytes num).2.Collects (resize st.recvBuf num.toNat) [] := by
  have hnot : ¬ ((defaultBuffLen : ℤ) < num ∨ num ≤ 0) := by
    rw [defaultBuffLen]
    omega
  have hlen := length_resize st.recvBuf num.toNat
  rw [asyncRecvBytes, if_neg hnot]
  refine ⟨rfl, rfl, rfl, ?_, ?_, rfl⟩
  · rw [hlen, List.length_nil, Nat.zero_add]
  · rw [hlen, List.length_nil]
    omega

/-! ## One read event -/

/-- What a read event does with a request on its way. -/
inductive Took (st : Stream) (buf part : List UInt8) :
    RecvResult → Stream × Option (StreamStat × List UInt8) → Prop
  | again (st' : Stream) (h : st'.Collects buf part) : Took st buf part .again (st', none)
  | more (st' : Stream) (bytes : List UInt8) (h : st'.Collects buf (part ++ bytes)) :
      Took st buf part (.data bytes) (st', none)
  | full (st' : Stream) (bytes : List UInt8) (hlen : (part ++ bytes).length = buf.length)
      (hread : st'.readPending = false) (hbuf : st'.recvBuf = part ++ bytes) :
      Took st buf part (.data bytes) (st', some (.recved, part ++ bytes))
  | closed (st' : Stream) (hread : st'.readPending = false)
      (hbuf : st'.recvBuf = part ++ buf.drop part.length) :
      Took st buf part .closed (st', some (.recverr, part ++ buf.drop part.length))
  | error (st' : Stream) (hread : st'.readPending = false)
      (hbuf : st'.recvBuf = part ++ buf.drop part.length) :
      Took st buf part .error (st', some (.recverr, part ++ buf.drop part.length))

theorem Collects.took (h : st.Collects buf part) {r : RecvResult} (hmay : st.mayRecv r = true) :
    Took st buf part r (st.recvOnePack r) := by
  cases r with
  | again => exact .again _ (h.of_sameReceive rfl rfl rfl rfl)
  | closed =>
      rw [recvOnePack, h.recvBuf]
      exact .closed _ rfl rfl
  | error =>
      rw [recvOnePack, h.recvBuf]
      exact .error _ rfl rfl
  | data bytes =>
      have hmay : 0 < bytes.length ∧ bytes.length ≤ st.needRecvLen := by
        simpa [mayRecv] using hmay
      have htotal := h.total
      have hstore := h.store bytes
      by_cases hlt : bytes.length < st.needRecvLen
      · rw [recvOnePack, if_pos hlt]
        refine .more _ bytes ⟨h.pending, ?_, ?_, ?_, ?_⟩
        · rw [List.length_append]
          exact congrArg (· + bytes.length) h.recvLen
        · rw [List.length_append]
          change part.length + bytes.length + (st.needRecvLen - bytes.length) = buf.length
          omega
        · rw [List.length_append]
          omega
        · rw [List.length_append]
          exact hstore
      · have hlen : (part ++ bytes).length = buf.length := by
          rw [List.length_append]
          omega
        have hfull : st.store bytes = part ++ bytes := by
          rw [hstore, List.drop_eq_nil_of_le (by rw [← hlen, List.length_append]),
            List.append_nil]
        rw [recvOnePack, if_neg hlt, hfull]
        exact .full _ bytes hlen rfl rfl

theorem Collects.received_of_lt (h : st.Collects buf part) {bytes : List UInt8}
    (hlt : part.length + bytes.length < buf.length) : st.received (.data bytes) = none := by
  have htotal := h.total
  rw [received, if_pos (by omega)]

theorem Collects.received_of_eq (h : st.Collects buf part) {bytes : List UInt8}
    (heq : (part ++ bytes).length = buf.length) :
    st.received (.data bytes) = some (part ++ bytes) := by
  have htotal := h.total
  rw [List.length_append] at heq
  rw [received, if_neg (by omega), h.store, List.drop_eq_nil_of_le (by omega), List.append_nil]

/-! ## From the request to its callback -/

/-- What happens on a stream while a request to receive is on its way. -/
inductive StreamEvent
  | readable (r : RecvResult)
  | writable (r : SendResult)
  | asyncSendBytes (vecBytes : List UInt8)

def step (st : Stream) : StreamEvent → Option Stream
  | .readable r =>
      if st.readPending = true ∧ st.mayRecv r = true then some (st.recvOnePack r).1 else none
  | .writable r =>
      if st.writePending = true ∧ st.maySend r = true then some (st.sendOnePack r).1 else none
  | .asyncSendBytes vecBytes => some (st.asyncSendBytes vecBytes).2

def StreamEvent.arrived : StreamEvent → List UInt8
  | .readable r => r.bytes
  | _ => []

def StreamEvent.fails : StreamEvent → Bool
  | .readable r => r.fails
  | _ => false

/-- The call of the receive callback. -/
def recvCalls (st : Stream) : StreamEvent → List (StreamStat × List UInt8)
  | .readable r => (st.recvOnePack r).2.toList
  | _ => []

def callsOf (st : Stream) (es : List StreamEvent) : List (StreamStat × List UInt8) :=
  (trace step st es).flatMap fun p => recvCalls p.1 p.2

inductive Request (buf : List UInt8) (st : Stream) (calls : List (StreamStat × List UInt8))
    (arrived : List UInt8) : Bool → Prop
  | waits (h : st.Collects buf arrived) (hcalls : calls = []) : Request buf st calls arrived false
  | recved (hread : st.readPending = false) (hbuf : st.recvBuf = arrived)
      (hlen : arrived.length = buf.length) (hcalls : calls = [(.recved, arrived)]) :
      Request buf st calls arrived false
  | recverr (hread : st.readPending = false)
      (hbuf : st.recvBuf = arrived ++ buf.drop arrived.length)
      (hlen : arrived.length < buf.length)
      (hcalls : calls = [(.recverr, arrived ++ buf.drop arrived.length)]) :
      Request buf st calls arrived true

/-- The sending side leaves a request alone. -/
theorem Request.of_sameReceive {st st' : Stream} {calls : List (StreamStat × List UInt8)}
    {arrived : List UInt8} {failed : Bool} (h : Request buf st calls arrived failed)
    (hread : st'.readPending = st.readPending) (hlen : st'.recvLen = st.recvLen)
    (hneed : st'.needRecvLen = st.needRecvLen) (hbuf : st'.recvBuf = st.recvBuf) :
    Request buf st' calls arrived failed := by
  cases h with
  | waits h hcalls => exact .waits (h.of_sameReceive hread hlen hneed hbuf) hcalls
  | recved hread' hbuf' hlen' hcalls =>
      exact .recved (hread.trans hread') (hbuf.trans hbuf') hlen' hcalls
  | recverr hread' hbuf' hlen' hcalls =>
      exact .recverr (hread.trans hread') (hbuf.trans hbuf') hlen' hcalls

theorem Request.readable {st : Stream} {calls : List (StreamStat × List UInt8)}
    {arrived : List UInt8} {failed : Bool} {r : RecvResult}
    (h : Request buf st calls arrived failed) (hpending : st.readPending = true)
    (hmay : st.mayRecv r = true) :
    Request buf (st.recvOnePack r).1 (calls ++ recvCalls st (.readable r))
      (arrived ++ StreamEvent.arrived (.readable r))
      (failed || StreamEvent.fails (.readable r)) := by
  cases h with
  | waits h hcalls =>
      subst hcalls
      rw [List.nil_append, Bool.false_or, recvCalls]
      have htook := h.took hmay
      generalize st.recvOnePack r = out at htook
      cases htook with
      | again st' h' =>
          rw [StreamEvent.arrived, RecvResult.bytes, List.append_nil]
          exact .waits h' rfl
      | more st' bytes h' => exact .waits h' rfl
      | full st' bytes hlen hread hbuf => exact .recved hread hbuf hlen rfl
      | closed st' hread hbuf =>
          rw [StreamEvent.arrived, RecvResult.bytes, List.append_nil]
          exact .recverr hread hbuf h.short rfl
      | error st' hread hbuf =>
          rw [StreamEvent.arrived, RecvResult.bytes, List.append_nil]
          exact .recverr hread hbuf h.short rfl
  | recved hread _ _ _ => simp [hread] at hpending
  | recverr hread _ _ _ => simp [hread] at hpending

theorem Request.step {st st' : Stream} {calls : List (StreamStat × List UInt8)}
    {arrived : List UInt8} {failed : Bool} {e : StreamEvent}
    (h : Request buf st calls arrived failed) (hstep : Stream.step st e = some st') :
    Request buf st' (calls ++ recvCalls st e) (arrived ++ e.arrived) (failed || e.fails) := by
  cases e with
  | readable r =>
      simp only [Stream.step, Option.ite_none_right_eq_some, Option.some.injEq] at hstep
      obtain ⟨⟨hpending, hmay⟩, rfl⟩ := hstep
      exact h.readable hpending hmay
  | writable r =>
      simp only [Stream.step, Option.ite_none_right_eq_some, Option.some.injEq] at hstep
      obtain ⟨-, rfl⟩ := hstep
      obtain ⟨hread, hlen, hneed, hbuf, -⟩ := st.sameReceive_sendOnePack r
      simpa [recvCalls, StreamEvent.arrived, StreamEvent.fails] using
        h.of_sameReceive hread hlen hneed hbuf
  | asyncSendBytes vecBytes =>
      obtain rfl := Option.some.inj hstep
      obtain ⟨hread, hlen, hneed, hbuf, -⟩ := st.sameReceive_asyncSendBytes vecBytes
      simpa [recvCalls, StreamEvent.arrived, StreamEvent.fails] using
        h.of_sameReceive hread hlen hneed hbuf

section

variable {st : Stream} {calls : List (StreamStat × List UInt8)} {arrived : List UInt8}
  {failed : Bool} {num : ℤ}

theorem Request.waiting (h : Request buf st calls arrived failed) (hnum : (buf.length : ℤ) = num)
    (hcalls : calls = []) :
    st.readPending = true ∧ (st.recvLen : ℤ) + st.needRecvLen = num ∧
      (st.recvBuf.length : ℤ) = num ∧ (st.recvLen : ℤ) < num := by
  cases h with
  | waits h _ =>
      have htotal := h.total
      have hshort := h.short
      rw [h.length, h.recvLen]
      exact ⟨h.pending, by omega, hnum, by omega⟩
  | recved _ _ _ hdone => simp [hcalls] at hdone
  | recverr _ _ _ hdone => simp [hcalls] at hdone

theorem Request.inside (h : Request buf st calls arrived failed) (hpending : st.readPending = true)
    (bytes : List UInt8) (hmay : st.mayRecv (.data bytes) = true) :
    st.recvLen + bytes.length ≤ st.recvBuf.length := by
  cases h with
  | waits h _ =>
      have htotal := h.total
      have hmay : 0 < bytes.length ∧ bytes.length ≤ st.needRecvLen := by
        simpa [mayRecv] using hmay
      rw [h.length, h.recvLen]
      omega
  | recved hread _ _ _ => simp [hread] at hpending
  | recverr hread _ _ _ => simp [hread] at hpending

theorem Request.once (h : Request buf st calls arrived failed) : calls.length ≤ 1 := by
  cases h with
  | waits _ hcalls => simp [hcalls]
  | recved _ _ _ hcalls => simp [hcalls]
  | recverr _ _ _ hcalls => simp [hcalls]

theorem Request.recved_iff (h : Request buf st calls arrived failed)
    (hnum : (buf.length : ℤ) = num) :
    (∃ bytes, (.recved, bytes) ∈ calls) ↔ (arrived.length : ℤ) = num := by
  cases h with
  | waits h hcalls =>
      have hshort := h.short
      have hne : (arrived.length : ℤ) ≠ num := by omega
      simp [hcalls, hne]
  | recved _ _ hlen hcalls =>
      have heq : (arrived.length : ℤ) = num := by omega
      simp [hcalls, heq]
  | recverr _ _ hlen hcalls =>
      have hne : (arrived.length : ℤ) ≠ num := by omega
      simp [hcalls, hne]

theorem Request.recved_bytes (h : Request buf st calls arrived failed) {bytes : List UInt8}
    (hbytes : (.recved, bytes) ∈ calls) : bytes = arrived ∧ arrived.length = buf.length := by
  cases h with
  | waits _ hcalls => simp [hcalls] at hbytes
  | recved _ _ hlen hcalls => exact ⟨by simpa [hcalls] using hbytes, hlen⟩
  | recverr _ _ _ hcalls => simp [hcalls] at hbytes

theorem Request.recverr_iff (h : Request buf st calls arrived failed) :
    (∃ bytes, (.recverr, bytes) ∈ calls) ↔ failed = true := by
  cases h with
  | waits _ hcalls => simp [hcalls]
  | recved _ _ _ hcalls => simp [hcalls]
  | recverr _ _ _ hcalls => simp [hcalls]

theorem Request.early (h : Request buf st calls arrived failed) (hnum : (buf.length : ℤ) = num)
    (hfailed : failed = true) : (arrived.length : ℤ) < num := by
  cases h with
  | recverr _ _ hlen _ => omega
  | _ => simp at hfailed

theorem Request.disarmed (h : Request buf st calls arrived failed) (hcalls : calls ≠ []) :
    st.readPending = false := by
  cases h with
  | waits _ hnone => exact absurd hnone hcalls
  | recved hread _ _ _ => exact hread
  | recverr hread _ _ _ => exact hread

/-- The bytes that have arrived determine the call and the buffer. -/
theorem Request.unique {st' : Stream} {calls' : List (StreamStat × List UInt8)}
    (h : Request buf st calls arrived failed) (h' : Request buf st' calls' arrived failed) :
    calls = calls' ∧ st.recvBuf = st'.recvBuf := by
  cases h with
  | waits h hcalls =>
      cases h' with
      | waits h' hcalls' => exact ⟨hcalls.trans hcalls'.symm, h.recvBuf.trans h'.recvBuf.symm⟩
      | recved _ _ hlen _ => exact absurd hlen (Nat.ne_of_lt h.short)
  | recved _ hbuf hlen hcalls =>
      cases h' with
      | waits h' _ => exact absurd hlen (Nat.ne_of_lt h'.short)
      | recved _ hbuf' _ hcalls' => exact ⟨hcalls.trans hcalls'.symm, hbuf.trans hbuf'.symm⟩
  | recverr _ hbuf _ hcalls =>
      cases h' with
      | recverr _ hbuf' _ hcalls' => exact ⟨hcalls.trans hcalls'.symm, hbuf.trans hbuf'.symm⟩

end

theorem request_of_run {st u : Stream} {es : List StreamEvent} (h : st.Collects buf [])
    (hrun : run step st es = some u) :
    Request buf u (callsOf st es) (es.flatMap StreamEvent.arrived) (es.any StreamEvent.fails) := by
  have hinv := @run_trace_invariant Stream StreamEvent step
    (fun s hist => Request buf s (hist.flatMap fun p => recvCalls p.1 p.2)
      ((hist.map Prod.snd).flatMap StreamEvent.arrived) ((hist.map Prod.snd).any StreamEvent.fails))
    (fun _ => True) (fun s hist e t hs _ ht => by
      simpa using hs.step ht) st u es (.waits h rfl) (fun _ _ => trivial) hrun
  rwa [trace_map_snd hrun] at hinv

/-- A request for `num` bytes, whatever the socket does and however often the
sending side is used in between. -/
theorem asyncRecvBytes_exact (st : Stream) {num : ℤ} (hpos : 1 ≤ num) (hle : num ≤ 1024)
    {es : List StreamEvent} {u : Stream} (hrun : run step (st.asyncRecvBytes num).2 es = some u) :
    (st.asyncRecvBytes num).1 = true ∧
      (callsOf (st.asyncRecvBytes num).2 es = [] →
        u.readPending = true ∧ (u.recvLen : ℤ) + u.needRecvLen = num ∧
          (u.recvBuf.length : ℤ) = num ∧ (u.recvLen : ℤ) < num) ∧
      (u.readPending = true → ∀ bytes, u.mayRecv (.data bytes) = true →
        u.recvLen + bytes.length ≤ u.recvBuf.length) ∧
      (callsOf (st.asyncRecvBytes num).2 es).length ≤ 1 ∧
      ((∃ bytes, (.recved, bytes) ∈ callsOf (st.asyncRecvBytes num).2 es) ↔
        ((es.flatMap StreamEvent.arrived).length : ℤ) = num) ∧
      (∀ bytes, (.recved, bytes) ∈ callsOf (st.asyncRecvBytes num).2 es →
        bytes = es.flatMap StreamEvent.arrived ∧
          ∀ peer, es.flatMap StreamEvent.arrived <+: peer → bytes = peer.take num.toNat) ∧
      ((∃ bytes, (.recverr, bytes) ∈ callsOf (st.asyncRecvBytes num).2 es) ↔
        es.any StreamEvent.fails = true) ∧
      (es.any StreamEvent.fails = true → ((es.flatMap StreamEvent.arrived).length : ℤ) < num) ∧
      (callsOf (st.asyncRecvBytes num).2 es ≠ [] → u.readPending = false) ∧
      ∀ es' u', run step (st.asyncRecvBytes num).2 es' = some u' →
        es'.flatMap StreamEvent.arrived = es.flatMap StreamEvent.arrived →
        es'.any StreamEvent.fails = es.any StreamEvent.fails →
        callsOf (st.asyncRecvBytes num).2 es' = callsOf (st.asyncRecvBytes num).2 es ∧
          u'.recvBuf = u.recvBuf := by
  obtain ⟨hok, hcollects⟩ := st.collects_asyncRecvBytes hpos hle
  have hnum : ((resize st.recvBuf num.toNat).length : ℤ) = num := by
    rw [length_resize]
    omega
  have hrequest := request_of_run hcollects hrun
  refine ⟨hok, hrequest.waiting hnum, hrequest.inside, hrequest.once, hrequest.recved_iff hnum,
    fun bytes hbytes => ?_, hrequest.recverr_iff, hrequest.early hnum, hrequest.disarmed, ?_⟩
  · obtain ⟨hall, hlen⟩ := hrequest.recved_bytes hbytes
    refine ⟨hall, fun peer hpeer => ?_⟩
    rw [hall, List.prefix_iff_eq_take.mp hpeer]
    congr 1
    omega
  · intro es' u' hrun' harrived hfails
    have hrequest' := request_of_run hcollects hrun'
    rw [harrived, hfails] at hrequest'
    exact hrequest'.unique hrequest

def twoChunks : List StreamEvent :=
  [.readable (.data [1, 2]), .readable .again, .readable (.data [3, 4])]

theorem asyncRecvBytes_exact_twoChunks :
    (.recved, [1, 2, 3, 4]) ∈ callsOf (new.asyncRecvBytes 4).2 twoChunks := by
  obtain ⟨u, hrun⟩ : ∃ u, run step (new.asyncRecvBytes 4).2 twoChunks = some u := by
    rw [asyncRecvBytes_new]
    exact ⟨_, rfl⟩
  obtain ⟨-, -, -, -, hcalled, hbytes, -⟩ :=
    asyncRecvBytes_exact new (by decide : (1 : ℤ) ≤ 4) (by decide) hrun
  obtain ⟨bytes, hmem⟩ := hcalled.mpr (by decide)
  have hall : bytes = [1, 2, 3, 4] := (hbytes bytes hmem).1
  exact hall ▸ hmem

end Stream

end Banana
