import Mathlib.Data.Int.Basic
import Mathlib.Data.List.Basic
import Mathlib.Tactic.Common
import Mathlib.Tactic.SplitIfs

/-!
# Stream

The buffered socket of `network/Stream.cpp` over the one-shot event table of a
reactor.  A request to receive or send adds an event; when the event fires the
table drops it, the handler calls `recv` or `send` once, and either adds the
event again or reports to the connection.

Adding an event is assumed to succeed, so `asyncRecvBytes` and `asyncSendBytes`
fail on their arguments only.  Lengths are natural numbers: a buffer has the size that
`asyncSendBytes` sees in an `int` as long as it is below 2 ^ 31.
-/

namespace Banana

inductive StreamStat
  | recving
  | recved
  | recverr
  | sending
  | sended
  | senderr
  | closed
  deriving DecidableEq

/-- What `recv` returns: at least one byte, 0, or -1 with an `errno` that means
try again or another one. -/
inductive RecvResult
  | data (bytes : List UInt8)
  | closed
  | again
  | error

inductive SendResult
  | sent (len : ℕ)
  | zero
  | again
  | error

/-- `readPending` and `writePending` say that the event is in the table. -/
structure Stream where
  recvLen : ℕ
  needRecvLen : ℕ
  sendLen : ℕ
  needSendLen : ℕ
  recvStat : StreamStat
  sendStat : StreamStat
  recvBuf : List UInt8
  sendBuf : List UInt8
  readPending : Bool
  writePending : Bool

namespace Stream

def defaultBuffLen : ℕ := 1024

def new : Stream where
  recvLen := 0
  needRecvLen := 0
  sendLen := 0
  needSendLen := 0
  recvStat := .recved
  sendStat := .sended
  recvBuf := List.replicate defaultBuffLen 0
  sendBuf := List.replicate defaultBuffLen 0
  readPending := false
  writePending := false

def resize (buf : List UInt8) (num : ℕ) : List UInt8 :=
  buf.take num ++ List.replicate (num - buf.length) 0

def asyncRecvBytes (st : Stream) (num : ℤ) : Bool × Stream :=
  if (defaultBuffLen : ℤ) < num ∨ num ≤ 0 then (false, st)
  else (true, { st with
    recvLen := 0
    needRecvLen := num.toNat
    recvBuf := resize st.recvBuf num.toNat
    readPending := true })

def asyncSendBytes (st : Stream) (vecBytes : List UInt8) : Bool × Stream :=
  if defaultBuffLen < vecBytes.length then (false, st)
  else (true, { st with
    sendLen := 0
    needSendLen := vecBytes.length
    sendBuf := vecBytes
    writePending := true })

/-- `recv` stores at `&recvBuf_[recvLen_]`. -/
def store (st : Stream) (bytes : List UInt8) : List UInt8 :=
  st.recvBuf.take st.recvLen ++ bytes ++ st.recvBuf.drop (st.recvLen + bytes.length)

/-- The read event fires.  The second component is the call of the receive
callback, if there is one. -/
def recvOnePack (st : Stream) : RecvResult → Stream × Option (StreamStat × List UInt8)
  | .closed =>
      ({ st with readPending := false, recvStat := .recverr }, some (.recverr, st.recvBuf))
  | .again => ({ st with recvStat := .recving }, none)
  | .error =>
      ({ st with readPending := false, recvStat := .recverr }, some (.recverr, st.recvBuf))
  | .data bytes =>
      if bytes.length < st.needRecvLen then
        ({ st with
            recvBuf := st.store bytes
            recvLen := st.recvLen + bytes.length
            needRecvLen := st.needRecvLen - bytes.length
            recvStat := .recving }, none)
      else
        ({ st with recvBuf := st.store bytes, readPending := false, recvStat := .recved },
          some (.recved, st.store bytes))

def sendOnePack (st : Stream) : SendResult → Stream × Option StreamStat
  | .again => ({ st with sendStat := .sending }, none)
  | .error => ({ st with writePending := false, sendStat := .senderr }, some .senderr)
  | .zero => ({ st with writePending := false, sendStat := .senderr }, some .senderr)
  | .sent len =>
      if len < st.needSendLen then
        ({ st with
            sendLen := st.sendLen + len
            needSendLen := st.needSendLen - len
            sendStat := .sending }, none)
      else ({ st with writePending := false, sendStat := .sended }, some .sended)

/-- The bytes that `send(&sendBuf_[sendLen_], needSendLen_)` takes. -/
def taken (st : Stream) : SendResult → List UInt8
  | .sent len => (st.sendBuf.drop st.sendLen).take len
  | _ => []

def mayRecv (st : Stream) : RecvResult → Bool
  | .data bytes => 0 < bytes.length ∧ bytes.length ≤ st.needRecvLen
  | _ => true

def maySend (st : Stream) : SendResult → Bool
  | .sent len => 0 < len ∧ len ≤ st.needSendLen
  | _ => true

/-- The buffer that the receive callback gets if `recv` returns `r`. -/
def received (st : Stream) : RecvResult → Option (List UInt8)
  | .data bytes => if bytes.length < st.needRecvLen then none else some (st.store bytes)
  | _ => none

theorem recvOnePack_of_received {st : Stream} {r : RecvResult} {bytes : List UInt8}
    (h : st.received r = some bytes) : (st.recvOnePack r).2 = some (.recved, bytes) := by
  cases r with
  | data bytes' =>
      simp only [received, Option.ite_none_left_eq_some, Option.some.injEq] at h
      obtain ⟨hfull, rfl⟩ := h
      simp [recvOnePack, hfull]
  | closed => simp [received] at h
  | again => simp [received] at h
  | error => simp [received] at h

/-! ## A receive on its way -/

structure Receiving (st : Stream) (num : ℕ) : Prop where
  pending : st.readPending = true
  total : st.recvLen + st.needRecvLen = num
  length : st.recvBuf.length = num

theorem length_resize (buf : List UInt8) (num : ℕ) : (resize buf num).length = num := by
  rw [resize, List.length_append, List.length_take, List.length_replicate]
  omega

theorem length_store {st : Stream} {num : ℕ} (h : st.Receiving num) {bytes : List UInt8}
    (hle : bytes.length ≤ st.needRecvLen) : (st.store bytes).length = num := by
  have htotal := h.total
  have hlen := h.length
  simp only [store, List.length_append, List.length_take, List.length_drop]
  omega

theorem asyncRecvBytes_of_pos (st : Stream) {num : ℤ} (hpos : 0 < num) (hle : num ≤ 1024) :
    (st.asyncRecvBytes num).1 = true ∧ (st.asyncRecvBytes num).2.Receiving num.toNat ∧
      (st.asyncRecvBytes num).2.writePending = st.writePending := by
  have hnot : ¬ ((defaultBuffLen : ℤ) < num ∨ num ≤ 0) := by
    rw [defaultBuffLen]
    omega
  simp only [asyncRecvBytes, hnot, if_false]
  exact ⟨trivial, ⟨rfl, Nat.zero_add _, length_resize _ _⟩, trivial⟩

/-- A request for a header is always taken. -/
theorem asyncRecvBytes_four (st : Stream) :
    st.asyncRecvBytes 4 = (true, (st.asyncRecvBytes 4).2) :=
  Prod.ext (st.asyncRecvBytes_of_pos (by decide) (by decide)).1 rfl

theorem asyncRecvBytes_new : (new.asyncRecvBytes 4).2 =
    { new with needRecvLen := 4, recvBuf := [0, 0, 0, 0], readPending := true } := by
  have hbuf : resize (List.replicate defaultBuffLen 0) 4 = [0, 0, 0, 0] := by
    have hmin : min 4 defaultBuffLen = 4 := by decide
    have hsub : 4 - defaultBuffLen = 0 := by decide
    rw [resize, List.take_replicate, List.length_replicate, hmin, hsub]
    rfl
  have hnot : ¬ ((defaultBuffLen : ℤ) < 4 ∨ (4 : ℤ) ≤ 0) := by
    rw [defaultBuffLen]
    omega
  rw [asyncRecvBytes, if_neg hnot]
  simp only [new]
  rw [show (4 : ℤ).toNat = 4 from rfl, hbuf]

theorem asyncRecvBytes_of_nonpos (st : Stream) {num : ℤ} (hle : num ≤ 0) :
    st.asyncRecvBytes num = (false, st) := by
  simp [asyncRecvBytes, hle]

inductive Fired (st : Stream) (num : ℕ) (r : RecvResult) :
    Stream × Option (StreamStat × List UInt8) → Prop
  | continues (st' : Stream) (hnone : st.received r = none) (h : st'.Receiving num)
      (hwrite : st'.writePending = st.writePending) : Fired st num r (st', none)
  | completes (st' : Stream) (bytes : List UInt8) (hbytes : st.received r = some bytes)
      (hlen : bytes.length = num) (hread : st'.readPending = false)
      (hwrite : st'.writePending = st.writePending) : Fired st num r (st', some (.recved, bytes))
  | fails (st' : Stream) (bytes : List UInt8) (hnone : st.received r = none)
      (hread : st'.readPending = false) (hwrite : st'.writePending = st.writePending) :
      Fired st num r (st', some (.recverr, bytes))

theorem Receiving.fired {st : Stream} {num : ℕ} (h : st.Receiving num) {r : RecvResult}
    (hmay : st.mayRecv r = true) : Fired st num r (st.recvOnePack r) := by
  cases r with
  | closed => exact .fails _ _ rfl rfl rfl
  | error => exact .fails _ _ rfl rfl rfl
  | again => exact .continues _ rfl ⟨h.pending, h.total, h.length⟩ rfl
  | data bytes =>
      have hle : 0 < bytes.length ∧ bytes.length ≤ st.needRecvLen := by
        simpa [mayRecv] using hmay
      have hstore := length_store h hle.2
      have htotal := h.total
      by_cases hlt : bytes.length < st.needRecvLen
      · have hnone : st.received (.data bytes) = none := by simp [received, hlt]
        simp only [recvOnePack, hlt, if_true]
        refine .continues _ hnone ⟨h.pending, ?_, hstore⟩ rfl
        change st.recvLen + bytes.length + (st.needRecvLen - bytes.length) = num
        omega
      · have hsome : st.received (.data bytes) = some (st.store bytes) := by
          simp [received, hlt]
        simp only [recvOnePack, hlt, if_false]
        exact .completes _ _ hsome hstore rfl rfl

theorem asyncSendBytes_of_le (st : Stream) {vecBytes : List UInt8}
    (hle : vecBytes.length ≤ 1024) :
    (st.asyncSendBytes vecBytes).2.writePending = true ∧
      (st.asyncSendBytes vecBytes).2.readPending = st.readPending := by
  have hnot : ¬ defaultBuffLen < vecBytes.length := by
    rw [defaultBuffLen]
    omega
  simp [asyncSendBytes, hnot]

theorem asyncSendBytes_of_gt (st : Stream) {vecBytes : List UInt8}
    (hgt : 1024 < vecBytes.length) : st.asyncSendBytes vecBytes = (false, st) := by
  simp [asyncSendBytes, defaultBuffLen, hgt]

theorem Receiving.asyncSendBytes {st : Stream} {num : ℕ} (h : st.Receiving num)
    (vecBytes : List UInt8) : (st.asyncSendBytes vecBytes).2.Receiving num := by
  unfold Stream.asyncSendBytes
  split_ifs
  · exact h
  · exact ⟨h.pending, h.total, h.length⟩

theorem readPending_asyncSendBytes (st : Stream) (vecBytes : List UInt8) :
    (st.asyncSendBytes vecBytes).2.readPending = st.readPending := by
  unfold Stream.asyncSendBytes
  split_ifs <;> rfl

inductive Wrote (st : Stream) : Stream × Option StreamStat → Prop
  | continues (st' : Stream) (hread : st'.readPending = st.readPending)
      (hrecv : ∀ num, st.Receiving num → st'.Receiving num)
      (hwrite : st'.writePending = st.writePending) : Wrote st (st', none)
  | completes (st' : Stream) (hread : st'.readPending = st.readPending)
      (hrecv : ∀ num, st.Receiving num → st'.Receiving num)
      (hwrite : st'.writePending = false) : Wrote st (st', some .sended)
  | fails (st' : Stream) (hread : st'.readPending = st.readPending)
      (hrecv : ∀ num, st.Receiving num → st'.Receiving num) : Wrote st (st', some .senderr)

theorem wrote_sendOnePack (st : Stream) (r : SendResult) : Wrote st (st.sendOnePack r) := by
  have hkeep : ∀ {st' : Stream}, st'.readPending = st.readPending →
      st'.recvLen = st.recvLen → st'.needRecvLen = st.needRecvLen → st'.recvBuf = st.recvBuf →
      ∀ num, st.Receiving num → st'.Receiving num := by
    intro st' hread hlen hneed hbuf num h
    exact ⟨hread.trans h.pending, by rw [hlen, hneed]; exact h.total, by rw [hbuf]; exact h.length⟩
  cases r with
  | again => exact .continues _ rfl (hkeep rfl rfl rfl rfl) rfl
  | error => exact .fails _ rfl (hkeep rfl rfl rfl rfl)
  | zero => exact .fails _ rfl (hkeep rfl rfl rfl rfl)
  | sent len =>
      by_cases hlt : len < st.needSendLen
      · simp only [sendOnePack, hlt, if_true]
        exact .continues _ rfl (hkeep rfl rfl rfl rfl) rfl
      · simp only [sendOnePack, hlt, if_false]
        exact .completes _ rfl (hkeep rfl rfl rfl rfl) rfl

/-! ## What a send leaves alone -/

structure SameReceive (st st' : Stream) : Prop where
  readPending : st'.readPending = st.readPending
  recvLen : st'.recvLen = st.recvLen
  needRecvLen : st'.needRecvLen = st.needRecvLen
  recvBuf : st'.recvBuf = st.recvBuf
  recvStat : st'.recvStat = st.recvStat

theorem sameReceive_asyncSendBytes (st : Stream) (buf : List UInt8) :
    SameReceive st (st.asyncSendBytes buf).2 := by
  unfold asyncSendBytes
  split_ifs <;> exact ⟨rfl, rfl, rfl, rfl, rfl⟩

theorem sameReceive_sendOnePack (st : Stream) (r : SendResult) :
    SameReceive st (st.sendOnePack r).1 := by
  cases r with
  | sent len =>
      rw [sendOnePack]
      split_ifs <;> exact ⟨rfl, rfl, rfl, rfl, rfl⟩
  | _ => exact ⟨rfl, rfl, rfl, rfl, rfl⟩

/-! ## A send on its way -/

/-- What `send` has still to take. -/
def unsent (st : Stream) : List UInt8 := if st.writePending then st.sendBuf.drop st.sendLen else []

/-- While the write event is in the table, the lengths add up to the buffer. -/
def Sending (st : Stream) : Prop :=
  st.writePending = true → st.sendLen + st.needSendLen = st.sendBuf.length

def SameSend (st st' : Stream) : Prop :=
  st'.sendBuf = st.sendBuf ∧ st'.sendLen = st.sendLen ∧ st'.needSendLen = st.needSendLen ∧
    st'.writePending = st.writePending

theorem SameSend.unsent {st st' : Stream} (h : SameSend st st') : st'.unsent = st.unsent := by
  obtain ⟨hbuf, hlen, -, hwrite⟩ := h
  rw [Stream.unsent, hbuf, hlen, hwrite, Stream.unsent]

theorem SameSend.sending {st st' : Stream} (h : SameSend st st') (hst : st.Sending) :
    st'.Sending := by
  obtain ⟨hbuf, hlen, hneed, hwrite⟩ := h
  unfold Sending
  rw [hbuf, hlen, hneed, hwrite]
  exact hst

theorem SameSend.refl (st : Stream) : SameSend st st := ⟨rfl, rfl, rfl, rfl⟩

theorem SameSend.trans {st st' st'' : Stream} (h : SameSend st st') (h' : SameSend st' st'') :
    SameSend st st'' :=
  ⟨h'.1.trans h.1, h'.2.1.trans h.2.1, h'.2.2.1.trans h.2.2.1, h'.2.2.2.trans h.2.2.2⟩

theorem sameSend_asyncRecvBytes (st : Stream) (num : ℤ) :
    SameSend st (st.asyncRecvBytes num).2 := by
  unfold asyncRecvBytes
  split_ifs <;> exact ⟨rfl, rfl, rfl, rfl⟩

theorem sameSend_recvOnePack (st : Stream) (r : RecvResult) :
    SameSend st (st.recvOnePack r).1 := by
  cases r with
  | data bytes =>
      rw [recvOnePack]
      split_ifs <;> exact ⟨rfl, rfl, rfl, rfl⟩
  | _ => exact SameSend.refl st

theorem Sending.sendOnePack {st : Stream} (hst : st.Sending) (hpending : st.writePending = true)
    {r : SendResult} (hmay : st.maySend r = true)
    (hok : (st.sendOnePack r).2 ≠ some .senderr) :
    st.unsent = st.taken r ++ (st.sendOnePack r).1.unsent ∧ (st.sendOnePack r).1.Sending := by
  have hlen := hst hpending
  cases r with
  | again => exact ⟨rfl, hst⟩
  | error => exact absurd rfl hok
  | zero => exact absurd rfl hok
  | sent len =>
      have hle : 0 < len ∧ len ≤ st.needSendLen := by simpa [maySend] using hmay
      by_cases hlt : len < st.needSendLen
      · simp only [Stream.sendOnePack, hlt, if_true, unsent, hpending, taken]
        refine ⟨?_, fun _ => ?_⟩
        · rw [← List.drop_drop, List.take_append_drop]
        · change st.sendLen + len + (st.needSendLen - len) = st.sendBuf.length
          omega
      · simp only [Stream.sendOnePack, hlt, if_false, unsent, hpending, if_true, taken]
        refine ⟨?_, nofun⟩
        rw [if_neg (by simp), List.append_nil, List.take_of_length_le]
        rw [List.length_drop]
        omega

/-- A send that goes on has bytes left. -/
theorem needSendLen_sendOnePack {st : Stream} {r : SendResult} (hpos : 0 < st.needSendLen)
    (hnone : (st.sendOnePack r).2 = none) : 0 < (st.sendOnePack r).1.needSendLen := by
  cases r with
  | again => exact hpos
  | sent len =>
      by_cases hlt : len < st.needSendLen
      · simp only [Stream.sendOnePack, if_pos hlt]
        omega
      · simp [Stream.sendOnePack, hlt] at hnone
  | _ => simp [Stream.sendOnePack] at hnone

theorem asyncSendBytes_unsent (st : Stream) {vecBytes : List UInt8}
    (hle : vecBytes.length ≤ 1024) :
    (st.asyncSendBytes vecBytes).2.unsent = vecBytes ∧ (st.asyncSendBytes vecBytes).2.Sending := by
  have hnot : ¬ defaultBuffLen < vecBytes.length := by
    rw [defaultBuffLen]
    omega
  simp only [asyncSendBytes, hnot, if_false]
  exact ⟨rfl, fun _ => Nat.zero_add _⟩

end Stream

end Banana
