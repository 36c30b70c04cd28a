import Banana.Library.NativeInt
import Banana.Library.Transition
import Banana.Network.Stream

/-!
# ConcurrentConnection

The connection of `examples/ConcurrenceEchoServer`: receive a header of four
bytes, receive a body of that length, send both back, start again.  The
results of `asyncRecvBytes` after a header and of `asyncSendBytes` are not
looked at, so a header that is not positive and a body whose answer does not
fit into the buffer leave the connection with nothing to wait for.

A callback also yields notes, one for every request to its stream and one for
every branch that says something about what has come.
-/

namespace Banana

open Transition

/-- `stat_` of both kinds of connections. -/
inductive ConnectionStat
  | recvHead
  | recvBody
  deriving DecidableEq

inductive SocketEvent
  | readable (r : RecvResult)
  | writable (r : SendResult)

/-- A body behind its length. -/
def frame (body : List UInt8) : List UInt8 := NativeInt.bytesOfNat 4 body.length ++ body

inductive Note
  | decodeError
  | asyncRecv (inProgress ok : Bool)
  | asyncSend (body : List UInt8) (inProgress ok : Bool)
  | echo (body : List UInt8)
  | allReceived
  deriving DecidableEq

/-- The note of `asyncRecvBytes(num)`. -/
def Stream.recvNote (st : Stream) (num : ℤ) : Note :=
  .asyncRecv st.readPending (st.asyncRecvBytes num).1

/-- The note of `asyncSendBytes` of a body behind its length. -/
def Stream.sendNote (st : Stream) (body : List UInt8) : Note :=
  .asyncSend body st.writePending (st.asyncSendBytes (frame body)).1

/-- `inMap` until `_destroy` removes the connection. -/
structure ConcurrentConnection where
  stat : ConnectionStat
  recvBuf : List UInt8
  stream : Stream
  inMap : Bool

namespace ConcurrentConnection

def destroy (c : ConcurrentConnection) : ConcurrentConnection := { c with inMap := false }

def recvHeadDone (c : ConcurrentConnection) (bodyLen : ℤ) : ConcurrentConnection × List Note :=
  if 1024 < bodyLen then
    ({ c with stream := (c.stream.asyncRecvBytes 4).2 }, [.decodeError, c.stream.recvNote 4])
  else
    ({ c with stream := (c.stream.asyncRecvBytes bodyLen).2, stat := .recvBody },
      [c.stream.recvNote bodyLen])

/-- Send the body back behind its length. -/
def recvBodyDone (c : ConcurrentConnection) (vecBytes : List UInt8) :
    ConcurrentConnection × List Note :=
  ({ c with
      recvBuf := frame vecBytes
      stream := (c.stream.asyncSendBytes (frame vecBytes)).2 }, [c.stream.sendNote vecBytes])

def recvCompleteCallback (c : ConcurrentConnection) (retRecvStat : StreamStat)
    (vecBytes : List UInt8) : ConcurrentConnection × List Note :=
  if retRecvStat = .recverr then (c.destroy, [])
  else
    match c.stat with
    | .recvHead =>
        if vecBytes.length < 4 then
          ({ c with stream := (c.stream.asyncRecvBytes 4).2 },
            [.decodeError, c.stream.recvNote 4])
        else c.recvHeadDone (NativeInt.decode vecBytes).val
    | .recvBody => c.recvBodyDone vecBytes

/-- Receive the next header, or give up. -/
def startRecvHead (c : ConcurrentConnection) : ConcurrentConnection × List Note :=
  match c.stream.asyncRecvBytes 4 with
  | (true, stream) => ({ c with stat := .recvHead, stream := stream }, [c.stream.recvNote 4])
  | (false, _) => ({ c with stat := .recvHead }.destroy, [c.stream.recvNote 4])

def startReadOrWriteInService (c : ConcurrentConnection) : ConcurrentConnection × List Note :=
  c.startRecvHead

def sendCompleteCallback (c : ConcurrentConnection) (retSendStat : StreamStat) :
    ConcurrentConnection × List Note :=
  if retSendStat = .senderr then (c.destroy, []) else c.startRecvHead

def new : ConcurrentConnection :=
  { stat := .recvHead, recvBuf := [], stream := .new, inMap := true }

def start : ConcurrentConnection := new.startReadOrWriteInService.1

/-- One event callback.  The map holds the only reference, so there are no
events for a connection that has been removed. -/
def react (c : ConcurrentConnection) : SocketEvent → Option (ConcurrentConnection × List Note)
  | .readable r =>
      if c.inMap = true ∧ c.stream.readPending = true ∧ c.stream.mayRecv r = true then
        match c.stream.recvOnePack r with
        | (stream, none) => some ({ c with stream := stream }, [])
        | (stream, some (retRecvStat, vecBytes)) =>
            some ({ c with stream := stream }.recvCompleteCallback retRecvStat vecBytes)
      else none
  | .writable r =>
      if c.inMap = true ∧ c.stream.writePending = true ∧ c.stream.maySend r = true then
        match c.stream.sendOnePack r with
        | (stream, none) => some ({ c with stream := stream }, [])
        | (stream, some retSendStat) =>
            some ({ c with stream := stream }.sendCompleteCallback retSendStat)
      else none

def step (c : ConcurrentConnection) (e : SocketEvent) : Option ConcurrentConnection :=
  (c.react e).map Prod.fst

theorem step_readable (c : ConcurrentConnection) (r : RecvResult) :
    step c (.readable r) =
      if c.inMap = true ∧ c.stream.readPending = true ∧ c.stream.mayRecv r = true then
        match c.stream.recvOnePack r with
        | (stream, none) => some { c with stream := stream }
        | (stream, some (retRecvStat, vecBytes)) =>
            some ({ c with stream := stream }.recvCompleteCallback retRecvStat vecBytes).1
      else none := by
  rw [step, react]
  split_ifs
  · rcases c.stream.recvOnePack r with ⟨stream, _ | ⟨retRecvStat, vecBytes⟩⟩ <;> rfl
  · rfl

theorem step_writable (c : ConcurrentConnection) (r : SendResult) :
    step c (.writable r) =
      if c.inMap = true ∧ c.stream.writePending = true ∧ c.stream.maySend r = true then
        match c.stream.sendOnePack r with
        | (stream, none) => some { c with stream := stream }
        | (stream, some retSendStat) =>
            some ({ c with stream := stream }.sendCompleteCallback retSendStat).1
      else none := by
  rw [step, react]
  split_ifs
  · rcases c.stream.sendOnePack r with ⟨stream, _ | retSendStat⟩ <;> rfl
  · rfl

/-! ## Exactly one request is pending -/

def Waits (c : ConcurrentConnection) : Prop :=
  c.inMap = true → c.stream.readPending ≠ c.stream.writePending

/-- The condition on an event: a completed header is positive, and the answer to
a completed body fits into the send buffer. -/
def Answerable (c : ConcurrentConnection) : SocketEvent → Prop
  | .readable r => ∀ bytes, c.stream.received r = some bytes →
      match c.stat with
      | .recvHead => 0 < (NativeInt.decode bytes).val
      | .recvBody => bytes.length ≤ 1020
  | .writable _ => True

/-- Where a connection is in its cycle, between two event callbacks. -/
inductive Phase (c : ConcurrentConnection) : Prop
  | removed (h : c.inMap = false)
  | head (hstat : c.stat = .recvHead) (h : c.stream.Receiving 4)
      (hwrite : c.stream.writePending = false)
  | body (num : ℕ) (hstat : c.stat = .recvBody) (h : c.stream.Receiving num)
      (hwrite : c.stream.writePending = false)
  | answer (hread : c.stream.readPending = false) (hwrite : c.stream.writePending = true)
  | stuck (hread : c.stream.readPending = false) (hwrite : c.stream.writePending = false)

theorem startRecvHead_eq (c : ConcurrentConnection) :
    c.startRecvHead =
      ({ c with stat := .recvHead, stream := (c.stream.asyncRecvBytes 4).2 },
        [c.stream.recvNote 4]) := by
  rw [startRecvHead, c.stream.asyncRecvBytes_four]

theorem start_eq :
    start = ⟨.recvHead, [], (Stream.new.asyncRecvBytes 4).2, true⟩ := by
  rw [start, startReadOrWriteInService, startRecvHead_eq]
  rfl

theorem phase_recvHead {c : ConcurrentConnection} (hwrite : c.stream.writePending = false) :
    Phase { c with stat := .recvHead, stream := (c.stream.asyncRecvBytes 4).2 } ∧
      Waits { c with stat := .recvHead, stream := (c.stream.asyncRecvBytes 4).2 } := by
  obtain ⟨-, hrecv, hkept⟩ :=
    c.stream.asyncRecvBytes_of_pos (by decide : (0 : ℤ) < 4) (by decide)
  refine ⟨.head rfl hrecv (hkept.trans hwrite), fun _ => ?_⟩
  rw [hrecv.pending, hkept, hwrite]
  decide

theorem not_waits_of_idle {c : ConcurrentConnection} (hmap : c.inMap = true)
    (hread : c.stream.readPending = false) (hwrite : c.stream.writePending = false) :
    ¬ Waits c := by
  intro hwaits
  have hne := hwaits hmap
  rw [hread, hwrite] at hne
  exact hne rfl

theorem recvHeadDone_spec {c : ConcurrentConnection} {bodyLen : ℤ} (hstat : c.stat = .recvHead)
    (hmap : c.inMap = true) (hread : c.stream.readPending = false)
    (hwrite : c.stream.writePending = false) :
    Phase (c.recvHeadDone bodyLen).1 ∧
      (0 < bodyLen ↔ Waits (c.recvHeadDone bodyLen).1) := by
  unfold recvHeadDone
  by_cases hlong : 1024 < bodyLen
  · have hnext := phase_recvHead hwrite
    rw [← hstat] at hnext
    rw [if_pos hlong]
    exact ⟨hnext.1, fun _ => hnext.2, fun _ => by omega⟩
  · rw [if_neg hlong]
    by_cases hpos : 0 < bodyLen
    · obtain ⟨-, hrecv, hkept⟩ := c.stream.asyncRecvBytes_of_pos hpos (not_lt.mp hlong)
      refine ⟨.body _ rfl hrecv (hkept.trans hwrite), fun _ _ => ?_, fun _ => hpos⟩
      rw [hrecv.pending, hkept, hwrite]
      decide
    · rw [c.stream.asyncRecvBytes_of_nonpos (not_lt.mp hpos)]
      refine ⟨.stuck hread hwrite, fun h => absurd h hpos, fun hwaits => ?_⟩
      exact absurd hwaits (not_waits_of_idle hmap hread hwrite)

theorem recvBodyDone_spec {c : ConcurrentConnection} {bytes : List UInt8}
    (hmap : c.inMap = true) (hread : c.stream.readPending = false)
    (hwrite : c.stream.writePending = false) :
    Phase (c.recvBodyDone bytes).1 ∧
      (bytes.length ≤ 1020 ↔ Waits (c.recvBodyDone bytes).1) := by
  have hlen : (frame bytes).length = 4 + bytes.length := by
    rw [frame, List.length_append, NativeInt.length_bytesOfNat]
  unfold recvBodyDone
  generalize frame bytes = answer at hlen
  by_cases hfits : bytes.length ≤ 1020
  · have hle : answer.length ≤ 1024 := by omega
    obtain ⟨hwrite', hread'⟩ := c.stream.asyncSendBytes_of_le hle
    refine ⟨.answer (hread'.trans hread) hwrite', fun _ _ => ?_, fun _ => hfits⟩
    rw [hwrite', hread', hread]
    decide
  · have hgt : 1024 < answer.length := by omega
    rw [c.stream.asyncSendBytes_of_gt hgt]
    refine ⟨.stuck hread hwrite, fun h => absurd h hfits, fun hwaits => ?_⟩
    exact absurd hwaits (not_waits_of_idle hmap hread hwrite)

theorem recvCompleteCallback_head {c : ConcurrentConnection} {bytes : List UInt8}
    (hstat : c.stat = .recvHead) (hlen : bytes.length = 4) :
    c.recvCompleteCallback .recved bytes = c.recvHeadDone (NativeInt.decode bytes).val := by
  simp [recvCompleteCallback, hstat, hlen]

theorem recvCompleteCallback_body {c : ConcurrentConnection} {bytes : List UInt8}
    (hstat : c.stat = .recvBody) :
    c.recvCompleteCallback .recved bytes = c.recvBodyDone bytes := by
  simp [recvCompleteCallback, hstat]

theorem removed_callback {c : ConcurrentConnection} {bytes : List UInt8} :
    Phase (c.recvCompleteCallback .recverr bytes).1 ∧
      Waits (c.recvCompleteCallback .recverr bytes).1 := by
  simp only [recvCompleteCallback, if_true]
  exact ⟨.removed rfl, nofun⟩

/-- A read event, given what the phase says about the receive and about its end. -/
theorem readable_step {c d : ConcurrentConnection} {r : RecvResult} {num : ℕ}
    (hrecv : c.stream.Receiving num) (hwrite : c.stream.writePending = false)
    (hmore : ∀ stream, stream.Receiving num → stream.writePending = false →
      Phase { c with stream := stream })
    (hdone : ∀ stream bytes, c.stream.received r = some bytes → bytes.length = num →
      c.inMap = true → stream.readPending = false → stream.writePending = false →
      Phase ({ c with stream := stream }.recvCompleteCallback .recved bytes).1 ∧
        (Answerable c (.readable r) ↔
          Waits ({ c with stream := stream }.recvCompleteCallback .recved bytes).1))
    (h : ConcurrentConnection.step c (.readable r) = some d) :
    Phase d ∧ (Answerable c (.readable r) ↔ Waits d) := by
  simp only [ConcurrentConnection.step_readable, Option.ite_none_right_eq_some] at h
  obtain ⟨⟨hmap, hpending, hmay⟩, h⟩ := h
  have hfired := hrecv.fired hmay
  generalize c.stream.recvOnePack r = out at hfired h
  cases hfired with
  | continues st' hnone hrecv' hkept =>
      obtain rfl := Option.some.inj h
      refine ⟨hmore st' hrecv' (hkept.trans hwrite), fun _ _ => ?_, fun _ => ?_⟩
      · rw [hrecv'.pending, hkept, hwrite]
        decide
      · simp [Answerable, hnone]
  | completes st' bytes hbytes hlen hread hkept =>
      obtain rfl := Option.some.inj h
      exact hdone st' bytes hbytes hlen hmap hread (hkept.trans hwrite)
  | fails st' bytes hnone _ hkept =>
      obtain rfl := Option.some.inj h
      refine ⟨removed_callback.1, fun _ => removed_callback.2, fun _ => ?_⟩
      simp [Answerable, hnone]

theorem writable_step {c d : ConcurrentConnection} {r : SendResult}
    (hread : c.stream.readPending = false) (hwrite : c.stream.writePending = true)
    (h : ConcurrentConnection.step c (.writable r) = some d) : Phase d ∧ Waits d := by
  simp only [ConcurrentConnection.step_writable, Option.ite_none_right_eq_some] at h
  obtain ⟨-, h⟩ := h
  have hwrote := c.stream.wrote_sendOnePack r
  generalize c.stream.sendOnePack r = out at hwrote h
  cases hwrote with
  | continues st' hread' _ hwrite' =>
      obtain rfl := Option.some.inj h
      refine ⟨.answer (hread'.trans hread) (hwrite'.trans hwrite), fun _ => ?_⟩
      rw [hread', hwrite', hread, hwrite]
      decide
  | completes st' hread' _ hwrite' =>
      simp only [sendCompleteCallback, reduceCtorEq, if_false, startRecvHead_eq] at h
      obtain rfl := Option.some.inj h
      exact phase_recvHead (c := { c with stream := st' }) hwrite'
  | fails st' hread' _ =>
      simp only [sendCompleteCallback, if_true] at h
      obtain rfl := Option.some.inj h
      exact ⟨.removed rfl, nofun⟩

theorem Phase.step {c d : ConcurrentConnection} {e : SocketEvent} (hc : Phase c)
    (h : ConcurrentConnection.step c e = some d) : Phase d ∧ (Answerable c e ↔ Waits d) := by
  cases e with
  | readable r =>
      cases hc with
      | removed hremoved => simp [ConcurrentConnection.step_readable, hremoved] at h
      | head hstat hrecv hwrite =>
          refine readable_step hrecv hwrite (fun _ h' hfree => .head hstat h' hfree) ?_ h
          intro stream bytes hbytes hlen hmap hread hwrite'
          have hanswer : Answerable c (.readable r) ↔ 0 < (NativeInt.decode bytes).val := by
            simp [Answerable, hbytes, hstat]
          rw [hanswer, @recvCompleteCallback_head { c with stream := stream } bytes hstat hlen]
          exact recvHeadDone_spec hstat hmap hread hwrite'
      | body num hstat hrecv hwrite =>
          refine readable_step hrecv hwrite (fun _ h' hfree => .body num hstat h' hfree) ?_ h
          intro stream bytes hbytes hlen hmap hread hwrite'
          have hanswer : Answerable c (.readable r) ↔ bytes.length ≤ 1020 := by
            simp [Answerable, hbytes, hstat]
          rw [hanswer, @recvCompleteCallback_body { c with stream := stream } bytes hstat]
          exact recvBodyDone_spec hmap hread hwrite'
      | answer hread _ => simp [ConcurrentConnection.step_readable, hread] at h
      | stuck hread _ => simp [ConcurrentConnection.step_readable, hread] at h
  | writable r =>
      cases hc with
      | removed hremoved => simp [ConcurrentConnection.step_writable, hremoved] at h
      | head _ _ hwrite => simp [ConcurrentConnection.step_writable, hwrite] at h
      | body _ _ _ hwrite => simp [ConcurrentConnection.step_writable, hwrite] at h
      | answer hread hwrite =>
          obtain ⟨hphase, hwaits⟩ := writable_step hread hwrite h
          exact ⟨hphase, fun _ => hwaits, fun _ => trivial⟩
      | stuck _ hwrite => simp [ConcurrentConnection.step_writable, hwrite] at h

theorem phase_start : Phase start ∧ Waits start := by
  rw [start_eq]
  exact @phase_recvHead new rfl

theorem waits_iff_answerable {es : List SocketEvent} {c : ConcurrentConnection}
    (hrun : run step start es = some c) :
    Along Answerable step start es ↔
      ∀ ds d, ds <+: es → run step start ds = some d → Waits d :=
  along_iff_forall_prefix (I := Phase) (G := Waits) (fun _ _ _ hc h => (hc.step h).1)
    (fun _ _ _ hc _ h => (hc.step h).2) phase_start.1 phase_start.2 hrun

end ConcurrentConnection

end Banana
