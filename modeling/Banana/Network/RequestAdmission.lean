import Banana.Library.NativeInt
import Banana.Network.StreamRequests

/-!
# What a Stream admits

`asyncRecvBytes` and `asyncSendBytes` check their arguments, overwrite the
fields of the request and add the event.  Here the fields are the `int`s of the
code: the size of a buffer is narrowed before it is compared, and a remaining
length goes to `recv` and `send` as a `size_t`.  A request is sound if a call
that fails changes nothing, and if what an accepted call starts cannot fail on a
healthy socket.  That holds except for a buffer whose size narrows to 0, which
only `asyncRecvBytes` refuses, and for an event that cannot be added, since then
the fields have been overwritten already.
-/

namespace Banana

open Transition

/-- The fields of a `Stream`; `readPending` and `writePending` say that the event is
in the table. -/
structure StreamFields (Cb : Type*) where
  recvLen : ℤ
  needRecvLen : ℤ
  sendLen : ℤ
  needSendLen : ℤ
  recvStat : StreamStat
  sendStat : StreamStat
  recvBuf : List UInt8
  sendBuf : List UInt8
  recvCompleteCallback : Option Cb
  sendCompleteCallback : Option Cb
  readPending : Bool
  writePending : Bool

namespace StreamFields

variable {Cb : Type*}

/-- An `int` length as the `size_t` parameter of `recv` and `send`. -/
def size (need : ℤ) : ℕ := (need % 18446744073709551616).toNat

/-- `int sendSize = vecBytes.size()`. -/
def sendSize (vecBytes : List UInt8) : ℤ := (NativeInt.ofNat vecBytes.length).val

/-- `added` is what `addEventHandler` returns.  If it fails, the event stays in the
table if it was there. -/
def asyncRecvBytes (f : StreamFields Cb) (added : Bool) (num : NativeInt) :
    Option Cb → Bool × StreamFields Cb
  | none => (false, f)
  | some cb =>
      if (Stream.defaultBuffLen : ℤ) < num.val ∨ num.val ≤ 0 then (false, f)
      else (added, { f with
        recvLen := 0
        needRecvLen := num.val
        recvBuf := Stream.resize f.recvBuf num.val.toNat
        recvCompleteCallback := some cb
        readPending := added || f.readPending })

def asyncSendBytes (f : StreamFields Cb) (added : Bool) (vecBytes : List UInt8) :
    Option Cb → Bool × StreamFields Cb
  | none => (false, f)
  | some cb =>
      if (Stream.defaultBuffLen : ℤ) < sendSize vecBytes then (false, f)
      else (added, { f with
        sendLen := 0
        needSendLen := sendSize vecBytes
        sendBuf := vecBytes
        sendCompleteCallback := some cb
        writePending := added || f.writePending })

def store (f : StreamFields Cb) (bytes : List UInt8) : List UInt8 :=
  f.recvBuf.take f.recvLen.toNat ++ bytes ++ f.recvBuf.drop (f.recvLen.toNat + bytes.length)

/-- The read event fires; `added` is what adding it again returns. -/
def recvOnePack (f : StreamFields Cb) (added : Bool) :
    RecvResult → StreamFields Cb × Option (StreamStat × List UInt8)
  | .closed => ({ f with readPending := false, recvStat := .recverr }, some (.recverr, f.recvBuf))
  | .again => ({ f with readPending := added, recvStat := .recving }, none)
  | .error => ({ f with readPending := false, recvStat := .recverr }, some (.recverr, f.recvBuf))
  | .data bytes =>
      if (bytes.length : ℤ) < f.needRecvLen then
        ({ f with
            recvBuf := f.store bytes
            recvLen := f.recvLen + bytes.length
            needRecvLen := f.needRecvLen - bytes.length
            readPending := added
            recvStat := .recving }, none)
      else
        ({ f with recvBuf := f.store bytes, readPending := false, recvStat := .recved },
          some (.recved, f.store bytes))

def sendOnePack (f : StreamFields Cb) (added : Bool) :
    SendResult → StreamFields Cb × Option StreamStat
  | .again => ({ f with writePending := added, sendStat := .sending }, none)
  | .error => ({ f with writePending := false, sendStat := .senderr }, some .senderr)
  | .zero => ({ f with writePending := false, sendStat := .senderr }, some .senderr)
  | .sent len =>
      if (len : ℤ) < f.needSendLen then
        ({ f with
            sendLen := f.sendLen + len
            needSendLen := f.needSendLen - len
            writePending := added
            sendStat := .sending }, none)
      else ({ f with writePending := false, sendStat := .sended }, some .sended)

/-- `recv` returns at most what it is asked for, and an `int`. -/
def mayRecv (f : StreamFields Cb) : RecvResult → Bool
  | .data bytes =>
      0 < bytes.length ∧ bytes.length ≤ size f.needRecvLen ∧ bytes.length < 2147483648
  | _ => true

def maySend (f : StreamFields Cb) : SendResult → Bool
  | .sent len => 0 < len ∧ len ≤ size f.needSendLen ∧ len < 2147483648
  | _ => true

inductive Event (Cb : Type*)
  | asyncRecvBytes (added : Bool) (num : NativeInt) (cb : Option Cb)
  | asyncSendBytes (added : Bool) (vecBytes : List UInt8) (cb : Option Cb)
  | readable (added : Bool) (res : RecvResult)
  | writable (added : Bool) (res : SendResult)

def step (f : StreamFields Cb) : Event Cb → Option (StreamFields Cb)
  | .asyncRecvBytes added num cb => some (f.asyncRecvBytes added num cb).2
  | .asyncSendBytes added vecBytes cb => some (f.asyncSendBytes added vecBytes cb).2
  | .readable added res =>
      if f.readPending = true ∧ f.mayRecv res = true then some (f.recvOnePack added res).1
      else none
  | .writable added res =>
      if f.writePending = true ∧ f.maySend res = true then some (f.sendOnePack added res).1
      else none

namespace Event

def isRecv : Event Cb → Bool
  | asyncRecvBytes _ _ _ => true
  | _ => false

def isSend : Event Cb → Bool
  | asyncSendBytes _ _ _ => true
  | _ => false

end Event

/-- No error and no close by the peer: 0 comes from a transfer of nothing only. -/
def HealthySocket (f : StreamFields Cb) : Event Cb → Prop
  | .readable _ .closed => size f.needRecvLen = 0
  | .readable _ .error => False
  | .writable _ .zero => size f.needSendLen = 0
  | .writable _ .error => False
  | _ => True

/-- On a healthy socket, and no further request to receive. -/
def HealthyRecv (f : StreamFields Cb) (e : Event Cb) : Prop :=
  f.HealthySocket e ∧ e.isRecv = false

def HealthySend (f : StreamFields Cb) (e : Event Cb) : Prop :=
  f.HealthySocket e ∧ e.isSend = false

def recvCalls (f : StreamFields Cb) : Event Cb → List (Cb × StreamStat × List UInt8)
  | .readable added res =>
      (Option.map₂ Prod.mk f.recvCompleteCallback (f.recvOnePack added res).2).toList
  | _ => []

def sendCalls (f : StreamFields Cb) : Event Cb → List (Cb × StreamStat)
  | .writable added res =>
      (Option.map₂ Prod.mk f.sendCompleteCallback (f.sendOnePack added res).2).toList
  | _ => []

def recvCallsOf (f : StreamFields Cb) (es : List (Event Cb)) :
    List (Cb × StreamStat × List UInt8) :=
  (trace step f es).flatMap fun p => recvCalls p.1 p.2

def sendCallsOf (f : StreamFields Cb) (es : List (Event Cb)) : List (Cb × StreamStat) :=
  (trace step f es).flatMap fun p => sendCalls p.1 p.2

/-! ## Sound requests -/

/-- On a healthy socket the request on its way may complete, and cannot fail. -/
structure RecvCompletes (f : StreamFields Cb) : Prop where
  may : ∃ es u c bytes, run step f es = some u ∧ Along HealthyRecv step f es ∧
    (c, .recved, bytes) ∈ recvCallsOf f es
  never : ∀ es u, run step f es = some u → Along HealthyRecv step f es →
    ∀ c bytes, (c, .recverr, bytes) ∉ recvCallsOf f es

structure SendCompletes (f : StreamFields Cb) : Prop where
  may : ∃ es u c, run step f es = some u ∧ Along HealthySend step f es ∧
    (c, .sended) ∈ sendCallsOf f es
  never : ∀ es u, run step f es = some u → Along HealthySend step f es →
    ∀ c, (c, .senderr) ∉ sendCallsOf f es

/-- A call that fails changes nothing, and one that starts a request starts one that
a healthy socket completes. -/
structure AdmitsRecv (f : StreamFields Cb) (added : Bool) (num : NativeInt)
    (cb : Option Cb) : Prop where
  fails : (f.asyncRecvBytes added num cb).1 = false → (f.asyncRecvBytes added num cb).2 = f
  starts : (f.asyncRecvBytes added num cb).1 = true → f.readPending = false →
    (f.asyncRecvBytes added num cb).2.RecvCompletes

structure AdmitsSend (f : StreamFields Cb) (added : Bool) (vecBytes : List UInt8)
    (cb : Option Cb) : Prop where
  fails : (f.asyncSendBytes added vecBytes cb).1 = false →
    (f.asyncSendBytes added vecBytes cb).2 = f
  starts : (f.asyncSendBytes added vecBytes cb).1 = true → f.writePending = false →
    (f.asyncSendBytes added vecBytes cb).2.SendCompletes

/-- The arguments are refused, or the event is added, or the fields hold the request
already. -/
def RecvSound (f : StreamFields Cb) (added : Bool) (num : NativeInt) (cb : Option Cb) : Prop :=
  cb = none ∨ num.val ≤ 0 ∨ 1024 < num.val ∨ added = true ∨
    (f.recvLen = 0 ∧ f.needRecvLen = num.val ∧ (f.recvBuf.length : ℤ) = num.val ∧
      f.recvCompleteCallback = cb)

/-- As for a receive, but a request to send nothing is accepted and does not complete. -/
def SendSound (f : StreamFields Cb) (added : Bool) (vecBytes : List UInt8)
    (cb : Option Cb) : Prop :=
  cb = none ∨ 1024 < sendSize vecBytes ∨
    (added = true ∧ (sendSize vecBytes ≠ 0 ∨ f.writePending = true)) ∨
    (added = false ∧ f.sendLen = 0 ∧ f.needSendLen = sendSize vecBytes ∧ f.sendBuf = vecBytes ∧
      f.sendCompleteCallback = cb)

/-! ## What a request does -/

inductive RecvCall (f : StreamFields Cb) (added : Bool) (num : NativeInt) :
    Option Cb → Bool × StreamFields Cb → Prop
  | refuses (cb : Option Cb) (h : cb = none ∨ num.val ≤ 0 ∨ 1024 < num.val) :
      RecvCall f added num cb (false, f)
  | takes (c : Cb) (hpos : 0 < num.val) (hle : num.val ≤ 1024) :
      RecvCall f added num (some c) (added, { f with
        recvLen := 0
        needRecvLen := num.val
        recvBuf := Stream.resize f.recvBuf num.val.toNat
        recvCompleteCallback := some c
        readPending := added || f.readPending })

theorem recvCall (f : StreamFields Cb) (added : Bool) (num : NativeInt) (cb : Option Cb) :
    RecvCall f added num cb (f.asyncRecvBytes added num cb) := by
  cases cb with
  | none => exact .refuses none (.inl rfl)
  | some c =>
      have hbuff : (Stream.defaultBuffLen : ℤ) = 1024 := rfl
      simp only [asyncRecvBytes]
      by_cases hbad : (Stream.defaultBuffLen : ℤ) < num.val ∨ num.val ≤ 0
      · rw [if_pos hbad]
        refine .refuses _ (.inr ?_)
        omega
      · rw [if_neg hbad]
        exact .takes c (by omega) (by omega)

inductive SendCall (f : StreamFields Cb) (added : Bool) (vecBytes : List UInt8) :
    Option Cb → Bool × StreamFields Cb → Prop
  | refuses (cb : Option Cb) (h : cb = none ∨ 1024 < sendSize vecBytes) :
      SendCall f added vecBytes cb (false, f)
  | takes (c : Cb) (hle : sendSize vecBytes ≤ 1024) :
      SendCall f added vecBytes (some c) (added, { f with
        sendLen := 0
        needSendLen := sendSize vecBytes
        sendBuf := vecBytes
        sendCompleteCallback := some c
        writePending := added || f.writePending })

theorem sendCall (f : StreamFields Cb) (added : Bool) (vecBytes : List UInt8)
    (cb : Option Cb) : SendCall f added vecBytes cb (f.asyncSendBytes added vecBytes cb) := by
  cases cb with
  | none => exact .refuses none (.inl rfl)
  | some c =>
      have hbuff : (Stream.defaultBuffLen : ℤ) = 1024 := rfl
      simp only [asyncSendBytes]
      by_cases hlong : (Stream.defaultBuffLen : ℤ) < sendSize vecBytes
      · rw [if_pos hlong]
        exact .refuses _ (.inr (hbuff ▸ hlong))
      · rw [if_neg hlong]
        exact .takes c (hbuff ▸ Int.not_lt.mp hlong)

/-! ## A request on its way on a healthy socket -/

theorem size_eq_zero_iff {need : ℤ} (hlow : -2147483648 ≤ need) (hhigh : need ≤ 1024) :
    size need = 0 ↔ need = 0 := by
  rw [size]
  omega

theorem le_sendSize (vecBytes : List UInt8) : -2147483648 ≤ sendSize vecBytes :=
  (NativeInt.ofNat vecBytes.length).range.1

def RecvLive (f : StreamFields Cb) : Prop :=
  f.readPending = true → 0 < f.needRecvLen ∧ f.needRecvLen ≤ 1024

/-- A negative length is one that `send` completes at once. -/
def SendLive (f : StreamFields Cb) : Prop :=
  f.writePending = true →
    f.needSendLen ≠ 0 ∧ -2147483648 ≤ f.needSendLen ∧ f.needSendLen ≤ 1024

theorem sameRecv_asyncSendBytes (f : StreamFields Cb) (added : Bool) (vecBytes : List UInt8)
    (cb : Option Cb) :
    (f.asyncSendBytes added vecBytes cb).2.readPending = f.readPending ∧
      (f.asyncSendBytes added vecBytes cb).2.needRecvLen = f.needRecvLen := by
  have hcall := f.sendCall added vecBytes cb
  generalize f.asyncSendBytes added vecBytes cb = out at hcall
  cases hcall with
  | refuses => exact ⟨rfl, rfl⟩
  | takes => exact ⟨rfl, rfl⟩

theorem sameSend_asyncRecvBytes (f : StreamFields Cb) (added : Bool) (num : NativeInt)
    (cb : Option Cb) :
    (f.asyncRecvBytes added num cb).2.writePending = f.writePending ∧
      (f.asyncRecvBytes added num cb).2.needSendLen = f.needSendLen := by
  have hcall := f.recvCall added num cb
  generalize f.asyncRecvBytes added num cb = out at hcall
  cases hcall with
  | refuses => exact ⟨rfl, rfl⟩
  | takes => exact ⟨rfl, rfl⟩

theorem sameRecv_sendOnePack (f : StreamFields Cb) (added : Bool) (res : SendResult) :
    (f.sendOnePack added res).1.readPending = f.readPending ∧
      (f.sendOnePack added res).1.needRecvLen = f.needRecvLen := by
  cases res with
  | sent len =>
      rw [sendOnePack]
      split_ifs
      · exact ⟨rfl, rfl⟩
      · exact ⟨rfl, rfl⟩
  | _ => exact ⟨rfl, rfl⟩

theorem sameSend_recvOnePack (f : StreamFields Cb) (added : Bool) (res : RecvResult) :
    (f.recvOnePack added res).1.writePending = f.writePending ∧
      (f.recvOnePack added res).1.needSendLen = f.needSendLen := by
  cases res with
  | data bytes =>
      rw [recvOnePack]
      split_ifs
      · exact ⟨rfl, rfl⟩
      · exact ⟨rfl, rfl⟩
  | _ => exact ⟨rfl, rfl⟩

theorem RecvLive.of_sameRecv {f u : StreamFields Cb} (h : f.RecvLive)
    (hsame : u.readPending = f.readPending ∧ u.needRecvLen = f.needRecvLen) : u.RecvLive := by
  unfold RecvLive
  rw [hsame.1, hsame.2]
  exact h

theorem SendLive.of_sameSend {f u : StreamFields Cb} (h : f.SendLive)
    (hsame : u.writePending = f.writePending ∧ u.needSendLen = f.needSendLen) :
    u.SendLive := by
  unfold SendLive
  rw [hsame.1, hsame.2]
  exact h

theorem RecvLive.step {f u : StreamFields Cb} {e : Event Cb} (h : f.RecvLive)
    (hhealthy : f.HealthyRecv e) (hstep : StreamFields.step f e = some u) :
    u.RecvLive ∧ ∀ c bytes, (c, .recverr, bytes) ∉ recvCalls f e := by
  obtain ⟨hsocket, hrecv⟩ := hhealthy
  cases e with
  | asyncRecvBytes => cases hrecv
  | asyncSendBytes added vecBytes cb =>
      obtain rfl := Option.some.inj hstep
      exact ⟨h.of_sameRecv (f.sameRecv_asyncSendBytes added vecBytes cb), nofun⟩
  | writable added res =>
      simp only [StreamFields.step, Option.ite_none_right_eq_some, Option.some.injEq] at hstep
      obtain ⟨-, rfl⟩ := hstep
      exact ⟨h.of_sameRecv (f.sameRecv_sendOnePack added res), nofun⟩
  | readable added res =>
      simp only [StreamFields.step, Option.ite_none_right_eq_some, Option.some.injEq] at hstep
      obtain ⟨⟨hpending, hmay⟩, rfl⟩ := hstep
      obtain ⟨hpos, hle⟩ := h hpending
      cases res with
      | error => exact hsocket.elim
      | closed =>
          have hzero : f.needRecvLen = 0 := (size_eq_zero_iff (by omega) hle).mp hsocket
          omega
      | again => exact ⟨fun _ => ⟨hpos, hle⟩, by simp [recvCalls, recvOnePack]⟩
      | data bytes =>
          by_cases hlt : (bytes.length : ℤ) < f.needRecvLen
          · refine ⟨?_, by simp [recvCalls, recvOnePack, hlt]⟩
            intro _
            simp only [recvOnePack, hlt, if_true]
            omega
          · refine ⟨?_, ?_⟩
            · intro hread
              simp [recvOnePack, hlt] at hread
            · intro c bytes'
              cases hcb : f.recvCompleteCallback <;> simp [recvCalls, recvOnePack, hlt, hcb]

theorem SendLive.step {f u : StreamFields Cb} {e : Event Cb} (h : f.SendLive)
    (hhealthy : f.HealthySend e) (hstep : StreamFields.step f e = some u) :
    u.SendLive ∧ ∀ c, (c, .senderr) ∉ sendCalls f e := by
  obtain ⟨hsocket, hsend⟩ := hhealthy
  cases e with
  | asyncSendBytes => cases hsend
  | asyncRecvBytes added num cb =>
      obtain rfl := Option.some.inj hstep
      exact ⟨h.of_sameSend (f.sameSend_asyncRecvBytes added num cb), nofun⟩
  | readable added res =>
      simp only [StreamFields.step, Option.ite_none_right_eq_some, Option.some.injEq] at hstep
      obtain ⟨-, rfl⟩ := hstep
      exact ⟨h.of_sameSend (f.sameSend_recvOnePack added res), nofun⟩
  | writable added res =>
      simp only [StreamFields.step, Option.ite_none_right_eq_some, Option.some.injEq] at hstep
      obtain ⟨⟨hpending, hmay⟩, rfl⟩ := hstep
      obtain ⟨hne, hlow, hle⟩ := h hpending
      cases res with
      | error => exact hsocket.elim
      | zero => exact absurd ((size_eq_zero_iff hlow hle).mp hsocket) hne
      | again => exact ⟨fun _ => ⟨hne, hlow, hle⟩, by simp [sendCalls, sendOnePack]⟩
      | sent len =>
          by_cases hlt : (len : ℤ) < f.needSendLen
          · refine ⟨?_, by simp [sendCalls, sendOnePack, hlt]⟩
            intro _
            simp only [sendOnePack, hlt, if_true]
            omega
          · refine ⟨?_, ?_⟩
            · intro hwrite
              simp [sendOnePack, hlt] at hwrite
            · intro c
              cases hcb : f.sendCompleteCallback <;> simp [sendCalls, sendOnePack, hlt, hcb]

theorem RecvLive.never {f u : StreamFields Cb} {es : List (Event Cb)} (h : f.RecvLive)
    (hrun : run StreamFields.step f es = some u)
    (hal : Along HealthyRecv StreamFields.step f es) (c : Cb) (bytes : List UInt8) :
    (c, .recverr, bytes) ∉ recvCallsOf f es := by
  intro hmem
  obtain ⟨p, hp, hcall⟩ := List.mem_flatMap.mp hmem
  exact forall_mem_trace_along (fun _ _ _ h' hP hstep => h'.step hP hstep) h hal hrun p hp c
    bytes hcall

theorem SendLive.never {f u : StreamFields Cb} {es : List (Event Cb)} (h : f.SendLive)
    (hrun : run StreamFields.step f es = some u)
    (hal : Along HealthySend StreamFields.step f es) (c : Cb) :
    (c, .senderr) ∉ sendCallsOf f es := by
  intro hmem
  obtain ⟨p, hp, hcall⟩ := List.mem_flatMap.mp hmem
  exact forall_mem_trace_along (fun _ _ _ h' hP hstep => h'.step hP hstep) h hal hrun p hp c
    hcall

/-! ## What is admitted -/

theorem recvCallsOf_singleton {f u : StreamFields Cb} {e : Event Cb}
    (hstep : StreamFields.step f e = some u) : recvCallsOf f [e] = recvCalls f e := by
  rw [recvCallsOf, trace_cons hstep, trace_nil, List.flatMap_singleton]

theorem sendCallsOf_singleton {f u : StreamFields Cb} {e : Event Cb}
    (hstep : StreamFields.step f e = some u) : sendCallsOf f [e] = sendCalls f e := by
  rw [sendCallsOf, trace_cons hstep, trace_nil, List.flatMap_singleton]

theorem recvCompletes {f : StreamFields Cb} {c : Cb} (hread : f.readPending = true)
    (hlive : f.RecvLive) (hcb : f.recvCompleteCallback = some c) : f.RecvCompletes := by
  obtain ⟨hpos, hle⟩ := hlive hread
  refine ⟨?_, fun es u hrun hal => hlive.never hrun hal⟩
  have hlen : ((List.replicate f.needRecvLen.toNat (0 : UInt8)).length : ℤ) = f.needRecvLen := by
    rw [List.length_replicate, Int.toNat_of_nonneg hpos.le]
  generalize List.replicate f.needRecvLen.toNat (0 : UInt8) = bytes at hlen
  have hmay : f.mayRecv (.data bytes) = true := by
    refine decide_eq_true ⟨by omega, ?_, by omega⟩
    rw [size]
    omega
  have hstep : StreamFields.step f (.readable true (.data bytes)) =
      some (f.recvOnePack true (.data bytes)).1 := by
    rw [StreamFields.step, if_pos ⟨hread, hmay⟩]
  have hnot : ¬ (bytes.length : ℤ) < f.needRecvLen := by omega
  refine ⟨[.readable true (.data bytes)], _, c, f.store bytes, by rw [run_singleton, hstep],
    (along_cons hstep).mpr ⟨⟨trivial, rfl⟩, trivial⟩, ?_⟩
  rw [recvCallsOf_singleton hstep]
  simp [recvCalls, recvOnePack, hnot, hcb]

theorem sendCompletes {f : StreamFields Cb} {c : Cb} (hwrite : f.writePending = true)
    (hlive : f.SendLive) (hcb : f.sendCompleteCallback = some c) : f.SendCompletes := by
  obtain ⟨hne, hlow, hle⟩ := hlive hwrite
  refine ⟨?_, fun es u hrun hal => hlive.never hrun hal⟩
  obtain ⟨len, hpos, hsize, hint, hnot⟩ : ∃ len : ℕ, 0 < len ∧ len ≤ size f.needSendLen ∧
      len < 2147483648 ∧ ¬ (len : ℤ) < f.needSendLen := by
    -- all of a positive length; for a negative one any answer completes the request
    rcases lt_or_gt_of_ne hne with hneg | hpos
    · refine ⟨1, Nat.one_pos, ?_, by decide, by omega⟩
      rw [size]
      omega
    · refine ⟨f.needSendLen.toNat, by omega, ?_, by omega, by omega⟩
      rw [size]
      omega
  have hmay : f.maySend (.sent len) = true := decide_eq_true ⟨hpos, hsize, hint⟩
  have hstep : StreamFields.step f (.writable true (.sent len)) =
      some (f.sendOnePack true (.sent len)).1 := by
    rw [StreamFields.step, if_pos ⟨hwrite, hmay⟩]
  refine ⟨[.writable true (.sent len)], _, c, by rw [run_singleton, hstep],
    (along_cons hstep).mpr ⟨⟨trivial, rfl⟩, trivial⟩, ?_⟩
  rw [sendCallsOf_singleton hstep]
  simp [sendCalls, sendOnePack, hnot, hcb]

/-- The call fails and writes what the fields hold. -/
theorem repeatRecv {f : StreamFields Cb} {num : ℤ} {c : Cb} (hlen : f.recvLen = 0)
    (hneed : f.needRecvLen = num) (hbuf : (f.recvBuf.length : ℤ) = num)
    (hcb : f.recvCompleteCallback = some c) :
    { f with
      recvLen := 0
      needRecvLen := num
      recvBuf := Stream.resize f.recvBuf num.toNat
      recvCompleteCallback := some c
      readPending := false || f.readPending } = f := by
  have hresize : Stream.resize f.recvBuf num.toNat = f.recvBuf := by
    rw [← hbuf, Int.toNat_natCast, StreamRequests.resize_length]
  rw [hresize, ← hlen, ← hneed, ← hcb, Bool.false_or]

theorem repeatSend {f : StreamFields Cb} {vecBytes : List UInt8} {c : Cb} (hlen : f.sendLen = 0)
    (hneed : f.needSendLen = sendSize vecBytes) (hbuf : f.sendBuf = vecBytes)
    (hcb : f.sendCompleteCallback = some c) :
    { f with
      sendLen := 0
      needSendLen := sendSize vecBytes
      sendBuf := vecBytes
      sendCompleteCallback := some c
      writePending := false || f.writePending } = f := by
  rw [← hlen, ← hneed, ← hbuf, ← hcb, Bool.false_or]

theorem admitsRecv_iff (f : StreamFields Cb) (added : Bool) (num : NativeInt)
    (cb : Option Cb) : f.AdmitsRecv added num cb ↔ f.RecvSound added num cb := by
  have hcall := f.recvCall added num cb
  constructor
  · intro hadmits
    obtain ⟨hfails, -⟩ := hadmits
    unfold RecvSound
    generalize f.asyncRecvBytes added num cb = out at hcall hfails
    cases hcall with
    | refuses cb h => exact h.imp_right fun h => h.imp_right .inl
    | takes c hpos hle =>
        cases added with
        | true => exact .inr (.inr (.inr (.inl rfl)))
        | false =>
            have hsame := hfails rfl
            have hlen := congrArg (fun g => (g.recvBuf.length : ℤ)) hsame
            simp only [Stream.length_resize] at hlen
            refine .inr (.inr (.inr (.inr ⟨?_, ?_, by omega, ?_⟩)))
            · exact (congrArg recvLen hsame).symm
            · exact (congrArg needRecvLen hsame).symm
            · exact (congrArg recvCompleteCallback hsame).symm
  · intro hsound
    unfold RecvSound at hsound
    refine ⟨?_, ?_⟩
    · intro hfalse
      generalize f.asyncRecvBytes added num cb = out at hcall hfalse
      cases hcall with
      | refuses => rfl
      | takes c hpos hle =>
          rcases hsound with hcb | hlow | hhigh | hadded | ⟨hlen, hneed, hbuf, hcb⟩
          · cases hcb
          · omega
          · omega
          · exact absurd (hadded.symm.trans hfalse) (by decide)
          · -- the request on its way is repeated
            obtain rfl : added = false := hfalse
            exact repeatRecv hlen hneed hbuf hcb
    · intro htrue hidle
      generalize f.asyncRecvBytes added num cb = out at hcall htrue
      cases hcall with
      | refuses => cases htrue
      | takes c hpos hle =>
          have htrue : added = true := htrue
          exact recvCompletes (by simp [htrue]) (fun _ => ⟨hpos, hle⟩) rfl

theorem admitsSend_iff (f : StreamFields Cb) (added : Bool) (vecBytes : List UInt8)
    (cb : Option Cb) : f.AdmitsSend added vecBytes cb ↔ f.SendSound added vecBytes cb := by
  have hcall := f.sendCall added vecBytes cb
  constructor
  · intro hadmits
    obtain ⟨hfails, hstarts⟩ := hadmits
    unfold SendSound
    generalize f.asyncSendBytes added vecBytes cb = out at hcall hfails hstarts
    cases hcall with
    | refuses cb h => exact h.imp_right .inl
    | takes c hle =>
        cases added with
        | false =>
            have hsame := hfails rfl
            refine .inr (.inr (.inr ⟨rfl, ?_, ?_, ?_, ?_⟩))
            · exact (congrArg sendLen hsame).symm
            · simpa only using (congrArg needSendLen hsame).symm
            · exact (congrArg sendBuf hsame).symm
            · exact (congrArg sendCompleteCallback hsame).symm
        | true =>
            refine .inr (.inr (.inl ⟨rfl, ?_⟩))
            by_contra hbad
            obtain ⟨hzero, hidle⟩ := not_or.mp hbad
            have hcompletes := hstarts rfl (Bool.eq_false_iff.mpr hidle)
            -- `send` of nothing returns 0, which is reported as an error
            have hnever := hcompletes.never [.writable true .zero] _ rfl
              ⟨⟨by simp [HealthySocket, size, not_not.mp hzero], rfl⟩, fun _ _ => trivial⟩ c
            rw [sendCallsOf_singleton rfl] at hnever
            exact hnever (List.mem_singleton_self _)
  · intro hsound
    unfold SendSound at hsound
    refine ⟨?_, ?_⟩
    · intro hfalse
      generalize f.asyncSendBytes added vecBytes cb = out at hcall hfalse
      cases hcall with
      | refuses => rfl
      | takes c hle =>
          rcases hsound with hcb | hhigh | ⟨hadded, -⟩ | ⟨-, hlen, hneed, hbuf, hcb⟩
          · cases hcb
          · omega
          · exact absurd (hadded.symm.trans hfalse) (by decide)
          · obtain rfl : added = false := hfalse
            exact repeatSend hlen hneed hbuf hcb
    · intro htrue hidle
      generalize f.asyncSendBytes added vecBytes cb = out at hcall htrue
      cases hcall with
      | refuses => cases htrue
      | takes c hle =>
          have htrue : added = true := htrue
          rcases hsound with hcb | hhigh | ⟨-, hne⟩ | ⟨hfalse, -⟩
          · cases hcb
          · omega
          · have hne : sendSize vecBytes ≠ 0 :=
              hne.resolve_right fun hpending => by rw [hidle] at hpending; cases hpending
            have hlow := le_sendSize vecBytes
            generalize sendSize vecBytes = num at hne hle hlow
            exact sendCompletes (by simp [htrue]) (fun _ => ⟨hne, hlow, hle⟩) rfl
          · exact absurd (htrue.symm.trans hfalse) (by decide)

theorem admits_iff (f : StreamFields Cb) (added : Bool) (num : NativeInt)
    (recvCb : Option Cb) (vecBytes : List UInt8) (sendCb : Option Cb) :
    (f.AdmitsRecv added num recvCb ↔ f.RecvSound added num recvCb) ∧
      (f.AdmitsSend added vecBytes sendCb ↔ f.SendSound added vecBytes sendCb) :=
  ⟨f.admitsRecv_iff added num recvCb, f.admitsSend_iff added vecBytes sendCb⟩

def new : StreamFields Cb where
  recvLen := 0
  needRecvLen := 0
  sendLen := 0
  needSendLen := 0
  recvStat := .recved
  sendStat := .sended
  recvBuf := List.replicate Stream.defaultBuffLen 0
  sendBuf := List.replicate Stream.defaultBuffLen 0
  recvCompleteCallback := none
  sendCompleteCallback := none
  readPending := false
  writePending := false

theorem sendSize_nil : sendSize [] = 0 := by
  rw [sendSize, NativeInt.ofNat_val]
  rfl

/-- An empty buffer on a new stream, and a call whose event cannot be added. -/
theorem not_admits :
    (∃ f es u, (new : StreamFields Unit).asyncSendBytes true [] (some ()) = (true, f) ∧
      run step f es = some u ∧ Along HealthySend step f es ∧
      ((), .senderr) ∈ sendCallsOf f es ∧
      ¬ (new : StreamFields Unit).AdmitsSend true [] (some ())) ∧
    (∃ f, (new : StreamFields Unit).asyncRecvBytes false ⟨4, by decide⟩ (some ()) = (false, f) ∧
      f ≠ new ∧ ¬ (new : StreamFields Unit).AdmitsRecv false ⟨4, by decide⟩ (some ())) := by
  constructor
  · have hnever : ¬ (new : StreamFields Unit).AdmitsSend true [] (some ()) := by
      intro hadmits
      rcases ((new : StreamFields Unit).admitsSend_iff true [] (some ())).mp hadmits with
        hcb | hlong | ⟨-, hne | hpending⟩ | ⟨hadded, -⟩
      · cases hcb
      · rw [sendSize_nil] at hlong
        exact absurd hlong (by decide)
      · exact hne sendSize_nil
      · cases hpending
      · cases hadded
    have hcall : (new : StreamFields Unit).asyncSendBytes true [] (some ()) = (true, { new with
        sendBuf := [], sendCompleteCallback := some (), writePending := true }) := by
      simp only [asyncSendBytes, sendSize_nil]
      rfl
    refine ⟨_, [.writable true .zero], _, hcall, rfl, ⟨⟨rfl, rfl⟩, fun _ _ => trivial⟩, ?_, hnever⟩
    rw [sendCallsOf_singleton rfl]
    exact List.mem_singleton_self _
  · refine ⟨_, rfl, ?_, ?_⟩
    · intro hsame
      exact absurd (congrArg needRecvLen hsame) (by decide)
    · intro hadmits
      exact absurd (congrArg needRecvLen (hadmits.fails rfl)) (by decide)

/-! ## Small buffers -/

/-- The fields of a stream whose lengths are natural numbers. -/
def ofRequests (r : StreamRequests Cb) : StreamFields Cb where
  recvLen := r.stream.recvLen
  needRecvLen := r.stream.needRecvLen
  sendLen := r.stream.sendLen
  needSendLen := r.stream.needSendLen
  recvStat := r.stream.recvStat
  sendStat := r.stream.sendStat
  recvBuf := r.stream.recvBuf
  sendBuf := r.stream.sendBuf
  recvCompleteCallback := r.recvCompleteCallback
  sendCompleteCallback := r.sendCompleteCallback
  readPending := r.stream.readPending
  writePending := r.stream.writePending

namespace Event

def toRequest : Event Cb → StreamRequests.RequestEvent Cb
  | asyncRecvBytes added num cb => .asyncRecvBytes added num.val cb
  | asyncSendBytes added vecBytes cb => .asyncSendBytes added vecBytes cb
  | readable _ res => .readable res
  | writable _ res => .writable res

/-- The size of the buffer is an `int`, and an event is always added again. -/
def Fits : Event Cb → Prop
  | asyncRecvBytes _ _ _ => True
  | asyncSendBytes _ vecBytes _ => vecBytes.length < 2147483648
  | readable added _ => added = true
  | writable added _ => added = true

end Event

instance : DecidablePred (@Event.Fits Cb)
  | .asyncRecvBytes _ _ _ => inferInstanceAs (Decidable True)
  | .asyncSendBytes _ vecBytes _ => inferInstanceAs (Decidable (vecBytes.length < 2147483648))
  | .readable added _ => inferInstanceAs (Decidable (added = true))
  | .writable added _ => inferInstanceAs (Decidable (added = true))

theorem sendSize_of_lt {vecBytes : List UInt8} (h : vecBytes.length < 2147483648) :
    sendSize vecBytes = vecBytes.length := by
  rw [sendSize, NativeInt.ofNat_val]
  exact NativeInt.wrap_of_range (by omega) (by omega)

theorem asyncRecvBytes_ofRequests (r : StreamRequests Cb) (added : Bool) (num : NativeInt)
    (cb : Option Cb) :
    (ofRequests r).asyncRecvBytes added num cb =
      ((r.asyncRecvBytes added num.val cb).1,
        ofRequests (r.asyncRecvBytes added num.val cb).2) := by
  have hcall := (ofRequests r).recvCall added num cb
  have hcall' := r.recvCall added num.val cb
  generalize (ofRequests r).asyncRecvBytes added num cb = out at hcall
  generalize r.asyncRecvBytes added num.val cb = out' at hcall'
  cases hcall with
  | refuses cb h =>
      cases hcall' with
      | refuses => rfl
      | takes c hpos hle =>
          rcases h with h | h
          · cases h
          · omega
  | takes c hpos hle =>
      cases hcall' with
      | refuses cb h =>
          rcases h with h | h
          · cases h
          · omega
      | takes c hpos hle => simp [ofRequests, Int.toNat_of_nonneg hpos.le]

theorem asyncSendBytes_ofRequests (r : StreamRequests Cb) (added : Bool) {vecBytes : List UInt8}
    (hlt : vecBytes.length < 2147483648) (cb : Option Cb) :
    (ofRequests r).asyncSendBytes added vecBytes cb =
      ((r.asyncSendBytes added vecBytes cb).1,
        ofRequests (r.asyncSendBytes added vecBytes cb).2) := by
  have hcall := (ofRequests r).sendCall added vecBytes cb
  have hcall' := r.sendCall added vecBytes cb
  have hsize := sendSize_of_lt hlt
  generalize (ofRequests r).asyncSendBytes added vecBytes cb = out at hcall
  generalize r.asyncSendBytes added vecBytes cb = out' at hcall'
  cases hcall with
  | refuses cb h =>
      cases hcall' with
      | refuses => rfl
      | takes c hle =>
          rcases h with h | h
          · cases h
          · omega
  | takes c hle =>
      cases hcall' with
      | refuses cb h =>
          rcases h with h | h
          · cases h
          · omega
      | takes c hle => simp [ofRequests, hsize]

theorem recvOnePack_ofRequests {r : StreamRequests Cb} (hread : r.stream.readPending = true)
    (res : RecvResult) :
    (ofRequests r).recvOnePack true res =
      (ofRequests { r with stream := (r.stream.recvOnePack res).1 },
        (r.stream.recvOnePack res).2) := by
  cases res with
  | data bytes =>
      by_cases hlt : bytes.length < r.stream.needRecvLen
      · have hlt' : (bytes.length : ℤ) < r.stream.needRecvLen := Int.ofNat_lt.mpr hlt
        simp [recvOnePack, Stream.recvOnePack, ofRequests, store, Stream.store, hlt, hread,
          Int.natCast_sub hlt.le]
      · have hlt' : ¬ (bytes.length : ℤ) < r.stream.needRecvLen := by omega
        simp [recvOnePack, Stream.recvOnePack, ofRequests, store, Stream.store, hlt]
  | again => simp [recvOnePack, Stream.recvOnePack, ofRequests, hread]
  | closed => rfl
  | error => rfl

theorem sendOnePack_ofRequests {r : StreamRequests Cb} (hwrite : r.stream.writePending = true)
    (res : SendResult) :
    (ofRequests r).sendOnePack true res =
      (ofRequests { r with stream := (r.stream.sendOnePack res).1 },
        (r.stream.sendOnePack res).2) := by
  cases res with
  | sent len =>
      by_cases hlt : len < r.stream.needSendLen
      · simp [sendOnePack, Stream.sendOnePack, ofRequests, hlt, hwrite, Int.natCast_sub hlt.le]
      · simp [sendOnePack, Stream.sendOnePack, ofRequests, hlt]
  | again => simp [sendOnePack, Stream.sendOnePack, ofRequests, hwrite]
  | zero => rfl
  | error => rfl

structure Bounded (r : StreamRequests Cb) : Prop where
  recv : r.stream.needRecvLen ≤ 1024
  send : r.stream.needSendLen ≤ 1024

theorem Bounded.step {r t : StreamRequests Cb} {e : StreamRequests.RequestEvent Cb}
    (h : Bounded r) (hstep : StreamRequests.step r e = some t) : Bounded t := by
  cases e with
  | asyncRecvBytes added num cb =>
      obtain rfl := Option.some.inj hstep
      have hcall := r.recvCall added num cb
      generalize r.asyncRecvBytes added num cb = out at hcall
      cases hcall with
      | refuses => exact h
      | takes c hpos hle => exact ⟨Int.toNat_le.mpr hle, h.send⟩
  | asyncSendBytes added vecBytes cb =>
      obtain rfl := Option.some.inj hstep
      have hcall := r.sendCall added vecBytes cb
      generalize r.asyncSendBytes added vecBytes cb = out at hcall
      cases hcall with
      | refuses => exact h
      | takes c hle => exact ⟨h.recv, hle⟩
  | readable res =>
      simp only [StreamRequests.step, Option.ite_none_right_eq_some, Option.some.injEq] at hstep
      obtain ⟨-, rfl⟩ := hstep
      have hsame := Stream.sameSend_recvOnePack r.stream res
      refine ⟨?_, hsame.2.2.1.trans_le h.send⟩
      cases res with
      | data bytes =>
          simp only [Stream.recvOnePack]
          split_ifs
          · exact (Nat.sub_le _ _).trans h.recv
          · exact h.recv
      | _ => exact h.recv
  | writable res =>
      simp only [StreamRequests.step, Option.ite_none_right_eq_some, Option.some.injEq] at hstep
      obtain ⟨-, rfl⟩ := hstep
      have hsame := Stream.sameReceive_sendOnePack r.stream res
      refine ⟨hsame.needRecvLen.trans_le h.recv, ?_⟩
      cases res with
      | sent len =>
          simp only [Stream.sendOnePack]
          split_ifs
          · exact (Nat.sub_le _ _).trans h.send
          · exact h.send
      | _ => exact h.send

theorem size_natCast {need : ℕ} (hle : need ≤ 1024) : size need = need := by
  rw [size]
  omega

theorem mayRecv_ofRequests {r : StreamRequests Cb} (h : Bounded r) (res : RecvResult) :
    (ofRequests r).mayRecv res = r.stream.mayRecv res := by
  have hle := h.recv
  cases res with
  | data bytes =>
      apply decide_eq_decide.mpr
      rw [show (ofRequests r).needRecvLen = (r.stream.needRecvLen : ℤ) from rfl, size_natCast hle]
      omega
  | _ => rfl

theorem maySend_ofRequests {r : StreamRequests Cb} (h : Bounded r) (res : SendResult) :
    (ofRequests r).maySend res = r.stream.maySend res := by
  have hle := h.send
  cases res with
  | sent len =>
      apply decide_eq_decide.mpr
      rw [show (ofRequests r).needSendLen = (r.stream.needSendLen : ℤ) from rfl, size_natCast hle]
      omega
  | _ => rfl

theorem step_ofRequests {r : StreamRequests Cb} {e : Event Cb} (h : Bounded r) (he : e.Fits) :
    step (ofRequests r) e = (StreamRequests.step r e.toRequest).map ofRequests := by
  cases e with
  | asyncRecvBytes added num cb =>
      rw [step, asyncRecvBytes_ofRequests]
      rfl
  | asyncSendBytes added vecBytes cb =>
      rw [step, asyncSendBytes_ofRequests r added he cb]
      rfl
  | readable added res =>
      obtain rfl : added = true := he
      have hpending : (ofRequests r).readPending = r.stream.readPending := rfl
      simp only [step, Event.toRequest, StreamRequests.step, mayRecv_ofRequests h, hpending]
      by_cases hread : r.stream.readPending = true ∧ r.stream.mayRecv res = true
      · rw [if_pos hread, if_pos hread, recvOnePack_ofRequests hread.1]
        rfl
      · rw [if_neg hread, if_neg hread]
        rfl
  | writable added res =>
      obtain rfl : added = true := he
      have hpending : (ofRequests r).writePending = r.stream.writePending := rfl
      simp only [step, Event.toRequest, StreamRequests.step, maySend_ofRequests h, hpending]
      by_cases hwrite : r.stream.writePending = true ∧ r.stream.maySend res = true
      · rw [if_pos hwrite, if_pos hwrite, sendOnePack_ofRequests hwrite.1]
        rfl
      · rw [if_neg hwrite, if_neg hwrite]
        rfl

/-- As long as sizes are `int`s, the natural numbers compute what the `int`s do. -/
theorem run_ofRequests {r : StreamRequests Cb} {es : List (Event Cb)} (h : Bounded r)
    (hes : ∀ e ∈ es, e.Fits) :
    run step (ofRequests r) es =
      (run StreamRequests.step r (es.map Event.toRequest)).map ofRequests := by
  induction es generalizing r with
  | nil => rfl
  | cons e es ih =>
      rw [List.map_cons, run_cons, run_cons, step_ofRequests h (hes e List.mem_cons_self)]
      cases hstep : StreamRequests.step r e.toRequest with
      | none => rfl
      | some t =>
          exact ih (h.step hstep) fun e' he' => hes e' (List.mem_cons_of_mem e he')

theorem bounded_new : Bounded (StreamRequests.new : StreamRequests Cb) :=
  ⟨Nat.zero_le _, Nat.zero_le _⟩

theorem run_new {es : List (Event Cb)} (hes : ∀ e ∈ es, e.Fits) :
    run step new es = (run StreamRequests.step .new (es.map Event.toRequest)).map ofRequests :=
  run_ofRequests bounded_new hes

theorem calls_ofRequests {r t : StreamRequests Cb} {e : Event Cb} (he : e.Fits)
    (hstep : StreamRequests.step r e.toRequest = some t) :
    recvCalls (ofRequests r) e = StreamRequests.recvCalls r e.toRequest ∧
      sendCalls (ofRequests r) e = StreamRequests.sendCalls r e.toRequest := by
  cases e with
  | asyncRecvBytes added num cb => exact ⟨rfl, rfl⟩
  | asyncSendBytes added vecBytes cb => exact ⟨rfl, rfl⟩
  | readable added res =>
      obtain rfl : added = true := he
      simp only [Event.toRequest, StreamRequests.step, Option.ite_none_right_eq_some] at hstep
      rw [recvCalls, recvOnePack_ofRequests hstep.1.1]
      exact ⟨rfl, rfl⟩
  | writable added res =>
      obtain rfl : added = true := he
      simp only [Event.toRequest, StreamRequests.step, Option.ite_none_right_eq_some] at hstep
      rw [sendCalls, sendOnePack_ofRequests hstep.1.1]
      exact ⟨rfl, rfl⟩

/-- What every step shows is the same in both, and so is what a run shows. -/
theorem flatMap_trace_ofRequests {α : Type*} {seen : StreamFields Cb → Event Cb → List α}
    {seen' : StreamRequests Cb → StreamRequests.RequestEvent Cb → List α}
    (hseen : ∀ {r t : StreamRequests Cb} {e : Event Cb}, e.Fits →
      StreamRequests.step r e.toRequest = some t → seen (ofRequests r) e = seen' r e.toRequest)
    {r t : StreamRequests Cb} {es : List (Event Cb)} (h : Bounded r) (hes : ∀ e ∈ es, e.Fits)
    (hrun : run StreamRequests.step r (es.map Event.toRequest) = some t) :
    ((trace step (ofRequests r) es).flatMap fun p => seen p.1 p.2) =
      (trace StreamRequests.step r (es.map Event.toRequest)).flatMap fun p => seen' p.1 p.2 := by
  induction es generalizing r with
  | nil => rfl
  | cons e es ih =>
      rw [List.map_cons] at hrun ⊢
      obtain ⟨v, hv, hrest⟩ := run_cons_eq_some.mp hrun
      have he := hes e List.mem_cons_self
      have hstep : step (ofRequests r) e = some (ofRequests v) := by
        rw [step_ofRequests h he, hv]
        rfl
      have hafter := ih (h.step hv) (fun e' he' => hes e' (List.mem_cons_of_mem e he')) hrest
      rw [trace_cons hstep, trace_cons hv, List.flatMap_cons, List.flatMap_cons]
      exact congrArg₂ (· ++ ·) (hseen he hv) hafter

theorem recvCallsOf_ofRequests {r t : StreamRequests Cb} {es : List (Event Cb)} (h : Bounded r)
    (hes : ∀ e ∈ es, e.Fits)
    (hrun : run StreamRequests.step r (es.map Event.toRequest) = some t) :
    recvCallsOf (ofRequests r) es = StreamRequests.recvCallsOf r (es.map Event.toRequest) :=
  flatMap_trace_ofRequests (fun he hstep => (calls_ofRequests he hstep).1) h hes hrun

theorem sendCallsOf_ofRequests {r t : StreamRequests Cb} {es : List (Event Cb)} (h : Bounded r)
    (hes : ∀ e ∈ es, e.Fits)
    (hrun : run StreamRequests.step r (es.map Event.toRequest) = some t) :
    sendCallsOf (ofRequests r) es = StreamRequests.sendCallsOf r (es.map Event.toRequest) :=
  flatMap_trace_ofRequests (fun he hstep => (calls_ofRequests he hstep).2) h hes hrun

end StreamFields

end Banana
