import Banana.Network.ExactReceive
import Banana.Network.ExactSend
import Mathlib.Data.Option.NAry

/-!
# Requests one after another

A `Stream` has one buffer, one offset and one callback for each direction.  Here it
is taken together with the callbacks it stores, and requests may come at any time.
In a run whose requests are made in turn, every request is answered once, in order,
and the bytes follow one another.  Lengths are natural numbers, and events are always
added again; `RequestAdmission` has the `int`s of the code.
-/

namespace Banana

open Transition

/-- A stream with the callbacks that it stores. -/
structure StreamRequests (Cb : Type*) where
  stream : Stream
  recvCompleteCallback : Option Cb
  sendCompleteCallback : Option Cb

namespace StreamRequests

variable {Cb : Type*}

def new : StreamRequests Cb := ⟨.new, none, none⟩

/-- `added` is what `addEventHandler` returns.  If it fails, the event stays in the
table if it was there. -/
def asyncRecvBytes (r : StreamRequests Cb) (added : Bool) (num : ℤ) (cb : Option Cb) :
    Bool × StreamRequests Cb :=
  match cb, r.stream.asyncRecvBytes num with
  | some cb, (true, st) =>
      (added, { r with
        stream := { st with readPending := added || r.stream.readPending }
        recvCompleteCallback := some cb })
  | _, _ => (false, r)

def asyncSendBytes (r : StreamRequests Cb) (added : Bool) (vecBytes : List UInt8)
    (cb : Option Cb) : Bool × StreamRequests Cb :=
  match cb, r.stream.asyncSendBytes vecBytes with
  | some cb, (true, st) =>
      (added, { r with
        stream := { st with writePending := added || r.stream.writePending }
        sendCompleteCallback := some cb })
  | _, _ => (false, r)

inductive RequestEvent (Cb : Type*)
  | asyncRecvBytes (added : Bool) (num : ℤ) (cb : Option Cb)
  | asyncSendBytes (added : Bool) (vecBytes : List UInt8) (cb : Option Cb)
  | readable (res : RecvResult)
  | writable (res : SendResult)

def step (r : StreamRequests Cb) : RequestEvent Cb → Option (StreamRequests Cb)
  | .asyncRecvBytes added num cb => some (r.asyncRecvBytes added num cb).2
  | .asyncSendBytes added vecBytes cb => some (r.asyncSendBytes added vecBytes cb).2
  | .readable res =>
      if r.stream.readPending = true ∧ r.stream.mayRecv res = true then
        some { r with stream := (r.stream.recvOnePack res).1 }
      else none
  | .writable res =>
      if r.stream.writePending = true ∧ r.stream.maySend res = true then
        some { r with stream := (r.stream.sendOnePack res).1 }
      else none

namespace RequestEvent

def isSend : RequestEvent Cb → Bool
  | asyncSendBytes _ _ _ => true
  | _ => false

def isRecv : RequestEvent Cb → Bool
  | asyncRecvBytes _ _ _ => true
  | _ => false

def sendFails : RequestEvent Cb → Bool
  | writable res => res.fails
  | _ => false

def recvFails : RequestEvent Cb → Bool
  | readable res => res.fails
  | _ => false

def arrived : RequestEvent Cb → List UInt8
  | readable res => res.bytes
  | _ => []

end RequestEvent

/-! ## What happens in a run -/

/-- The requests to send that are accepted. -/
def sendRequests (r : StreamRequests Cb) : RequestEvent Cb → List (Cb × List UInt8)
  | .asyncSendBytes added vecBytes cb =>
      if (r.asyncSendBytes added vecBytes cb).1 then cb.toList.map fun c => (c, vecBytes) else []
  | _ => []

def recvRequests (r : StreamRequests Cb) : RequestEvent Cb → List (Cb × ℤ)
  | .asyncRecvBytes added num cb =>
      if (r.asyncRecvBytes added num cb).1 then cb.toList.map fun c => (c, num) else []
  | _ => []

/-- The calls of `sendCompleteCallback_`. -/
def sendCalls (r : StreamRequests Cb) : RequestEvent Cb → List (Cb × StreamStat)
  | .writable res =>
      (Option.map₂ Prod.mk r.sendCompleteCallback (r.stream.sendOnePack res).2).toList
  | _ => []

def recvCalls (r : StreamRequests Cb) : RequestEvent Cb → List (Cb × StreamStat × List UInt8)
  | .readable res =>
      (Option.map₂ Prod.mk r.recvCompleteCallback (r.stream.recvOnePack res).2).toList
  | _ => []

def handed (r : StreamRequests Cb) : RequestEvent Cb → List UInt8
  | .writable res => r.stream.taken res
  | _ => []

def sendRequestsOf (r : StreamRequests Cb) (es : List (RequestEvent Cb)) : List (Cb × List UInt8) :=
  (trace step r es).flatMap fun p => sendRequests p.1 p.2

def recvRequestsOf (r : StreamRequests Cb) (es : List (RequestEvent Cb)) : List (Cb × ℤ) :=
  (trace step r es).flatMap fun p => recvRequests p.1 p.2

def sendCallsOf (r : StreamRequests Cb) (es : List (RequestEvent Cb)) : List (Cb × StreamStat) :=
  (trace step r es).flatMap fun p => sendCalls p.1 p.2

def recvCallsOf (r : StreamRequests Cb) (es : List (RequestEvent Cb)) :
    List (Cb × StreamStat × List UInt8) :=
  (trace step r es).flatMap fun p => recvCalls p.1 p.2

def wireOf (r : StreamRequests Cb) (es : List (RequestEvent Cb)) : List UInt8 :=
  (trace step r es).flatMap fun p => handed p.1 p.2

/-- What has arrived for the request on its way. -/
def gathered (r : StreamRequests Cb) : List UInt8 :=
  if r.stream.readPending then r.stream.recvBuf.take r.stream.recvLen else []

/-! ## A further request -/

/-- The arguments are refused, or the call fails and repeats the request on its way, of
which nothing has been sent. -/
def SendRefused (r : StreamRequests Cb) (added : Bool) (vecBytes : List UInt8)
    (cb : Option Cb) : Prop :=
  cb = none ∨ 1024 < vecBytes.length ∨
    (added = false ∧ cb = r.sendCompleteCallback ∧ vecBytes = r.stream.sendBuf ∧
      r.stream.sendLen = 0)

def RecvRefused (r : StreamRequests Cb) (added : Bool) (num : ℤ) (cb : Option Cb) : Prop :=
  cb = none ∨ num ≤ 0 ∨ 1024 < num ∨
    (added = false ∧ cb = r.recvCompleteCallback ∧ num = r.stream.recvBuf.length ∧
      r.stream.recvLen = 0)

instance [DecidableEq Cb] (r : StreamRequests Cb) (added : Bool) (vecBytes : List UInt8)
    (cb : Option Cb) : Decidable (r.SendRefused added vecBytes cb) :=
  inferInstanceAs (Decidable (_ ∨ _ ∨ (_ ∧ _ ∧ _ ∧ _)))

instance [DecidableEq Cb] (r : StreamRequests Cb) (added : Bool) (num : ℤ) (cb : Option Cb) :
    Decidable (r.RecvRefused added num cb) :=
  inferInstanceAs (Decidable (_ ∨ _ ∨ _ ∨ (_ ∧ _ ∧ _ ∧ _)))

/-- While a request is on its way, a further one in the same direction is refused. -/
def InTurn (r : StreamRequests Cb) : RequestEvent Cb → Prop
  | .asyncRecvBytes added num cb => r.stream.readPending = true → r.RecvRefused added num cb
  | .asyncSendBytes added vecBytes cb =>
      r.stream.writePending = true → r.SendRefused added vecBytes cb
  | _ => True

instance [DecidableEq Cb] (r : StreamRequests Cb) : ∀ e, Decidable (r.InTurn e)
  | .asyncRecvBytes _ _ _ => inferInstanceAs (Decidable (_ → _))
  | .asyncSendBytes _ _ _ => inferInstanceAs (Decidable (_ → _))
  | .readable _ => inferInstanceAs (Decidable True)
  | .writable _ => inferInstanceAs (Decidable True)

/-! ## What a request does -/

inductive SendCall (r : StreamRequests Cb) (added : Bool) (vecBytes : List UInt8) :
    Option Cb → Bool × StreamRequests Cb → Prop
  | refuses (cb : Option Cb) (h : cb = none ∨ 1024 < vecBytes.length) :
      SendCall r added vecBytes cb (false, r)
  | takes (c : Cb) (hle : vecBytes.length ≤ 1024) :
      SendCall r added vecBytes (some c) (added, { r with
        stream := { r.stream with
          sendLen := 0
          needSendLen := vecBytes.length
          sendBuf := vecBytes
          writePending := added || r.stream.writePending }
        sendCompleteCallback := some c })

theorem sendCall (r : StreamRequests Cb) (added : Bool) (vecBytes : List UInt8)
    (cb : Option Cb) : SendCall r added vecBytes cb (r.asyncSendBytes added vecBytes cb) := by
  unfold asyncSendBytes Stream.asyncSendBytes
  rw [Stream.defaultBuffLen]
  cases cb with
  | none => exact .refuses none (.inl rfl)
  | some c =>
      by_cases hlong : 1024 < vecBytes.length
      · rw [if_pos hlong]
        exact .refuses _ (.inr hlong)
      · rw [if_neg hlong]
        exact .takes c (Nat.le_of_not_lt hlong)

inductive RecvCall (r : StreamRequests Cb) (added : Bool) (num : ℤ) :
    Option Cb → Bool × StreamRequests Cb → Prop
  | refuses (cb : Option Cb) (h : cb = none ∨ num ≤ 0 ∨ 1024 < num) :
      RecvCall r added num cb (false, r)
  | takes (c : Cb) (hpos : 0 < num) (hle : num ≤ 1024) :
      RecvCall r added num (some c) (added, { r with
        stream := { r.stream with
          recvLen := 0
          needRecvLen := num.toNat
          recvBuf := Stream.resize r.stream.recvBuf num.toNat
          readPending := added || r.stream.readPending }
        recvCompleteCallback := some c })

theorem recvCall (r : StreamRequests Cb) (added : Bool) (num : ℤ) (cb : Option Cb) :
    RecvCall r added num cb (r.asyncRecvBytes added num cb) := by
  unfold asyncRecvBytes Stream.asyncRecvBytes
  rw [Stream.defaultBuffLen]
  cases cb with
  | none => exact .refuses none (.inl rfl)
  | some c =>
      by_cases hbad : ((1024 : ℕ) : ℤ) < num ∨ num ≤ 0
      · rw [if_pos hbad]
        refine .refuses _ (.inr ?_)
        omega
      · rw [if_neg hbad]
        exact .takes c (by omega) (by omega)

/-! ## Reachable states -/

/-- A request on its way has a callback, and its offset and length fit the buffer. -/
structure WellFormed (r : StreamRequests Cb) : Prop where
  sending : r.stream.Sending
  sendCallback : r.stream.writePending = true → ∃ c, r.sendCompleteCallback = some c
  receiving : r.stream.readPending = true → ∃ buf part, r.stream.Collects buf part
  recvCallback : r.stream.readPending = true → ∃ c, r.recvCompleteCallback = some c

theorem wellFormed_new : (new : StreamRequests Cb).WellFormed :=
  ⟨nofun, nofun, nofun, nofun⟩

/-- What a read event leaves of a request on its way. -/
theorem collects_recvOnePack {st : Stream} {buf part : List UInt8} (h : st.Collects buf part)
    {res : RecvResult} (hmay : st.mayRecv res = true)
    (hread : (st.recvOnePack res).1.readPending = true) :
    ∃ buf part, (st.recvOnePack res).1.Collects buf part := by
  have htook := h.took hmay
  generalize st.recvOnePack res = out at htook hread
  cases htook with
  | again st' h' => exact ⟨buf, part, h'⟩
  | more st' bytes h' => exact ⟨buf, part ++ bytes, h'⟩
  | full st' bytes _ hdone => simp [hdone] at hread
  | closed st' hdone => simp [hdone] at hread
  | error st' hdone => simp [hdone] at hread

theorem sending_sendOnePack {st : Stream} (h : st.Sending) (hpending : st.writePending = true)
    {res : SendResult} (hmay : st.maySend res = true) : (st.sendOnePack res).1.Sending := by
  cases res with
  | error => exact nofun
  | zero => exact nofun
  | again => exact (h.sendOnePack hpending hmay nofun).2
  | sent len =>
      refine (h.sendOnePack hpending hmay fun heq => ?_).2
      rw [Stream.sendOnePack] at heq
      split_ifs at heq
      simp at heq

theorem WellFormed.step {r t : StreamRequests Cb} {e : RequestEvent Cb} (h : r.WellFormed)
    (ht : step r e = some t) : t.WellFormed := by
  cases e with
  | asyncRecvBytes added num cb =>
      rw [← Option.some.inj ht]
      have hcall := r.recvCall added num cb
      generalize r.asyncRecvBytes added num cb = out at hcall
      cases hcall with
      | refuses => exact h
      | takes c hpos hle =>
          refine ⟨h.sending, h.sendCallback, fun hread => ?_, fun _ => ⟨c, rfl⟩⟩
          have hlen := Stream.length_resize r.stream.recvBuf num.toNat
          refine ⟨Stream.resize r.stream.recvBuf num.toNat, [], hread, rfl, ?_, ?_, rfl⟩
          · rw [List.length_nil, Nat.zero_add]
            exact hlen.symm
          · rw [List.length_nil]
            omega
  | asyncSendBytes added vecBytes cb =>
      rw [← Option.some.inj ht]
      have hcall := r.sendCall added vecBytes cb
      generalize r.asyncSendBytes added vecBytes cb = out at hcall
      cases hcall with
      | refuses => exact h
      | takes c hle =>
          refine ⟨fun _ => Nat.zero_add _, fun _ => ⟨c, rfl⟩, fun hread => ?_, h.recvCallback⟩
          obtain ⟨buf, part, hcollects⟩ := h.receiving hread
          exact ⟨buf, part, hcollects.of_sameReceive rfl rfl rfl rfl⟩
  | readable res =>
      simp only [StreamRequests.step, Option.ite_none_right_eq_some, Option.some.injEq] at ht
      obtain ⟨⟨hread, hmay⟩, rfl⟩ := ht
      have hsame := Stream.sameSend_recvOnePack r.stream res
      obtain ⟨buf, part, hcollects⟩ := h.receiving hread
      exact ⟨hsame.sending h.sending, fun hwrite => h.sendCallback (hsame.2.2.2.symm.trans hwrite),
        collects_recvOnePack hcollects hmay, fun _ => h.recvCallback hread⟩
  | writable res =>
      simp only [StreamRequests.step, Option.ite_none_right_eq_some, Option.some.injEq] at ht
      obtain ⟨⟨hwrite, hmay⟩, rfl⟩ := ht
      obtain ⟨hread, hlen, hneed, hbuf, -⟩ := r.stream.sameReceive_sendOnePack res
      refine ⟨sending_sendOnePack h.sending hwrite hmay, fun _ => h.sendCallback hwrite,
        fun hread' => ?_, fun hread' => h.recvCallback (hread.symm.trans hread')⟩
      obtain ⟨buf, part, hcollects⟩ := h.receiving (hread.symm.trans hread')
      exact ⟨buf, part, hcollects.of_sameReceive hread hlen hneed hbuf⟩

/-! ## When a further request is harmless -/

/-- The request repeats the one on its way and fails: nothing changes. -/
theorem WellFormed.repeatSend {r : StreamRequests Cb} (h : r.WellFormed)
    (hpending : r.stream.writePending = true) (hzero : r.stream.sendLen = 0) :
    r = { r with
      stream := { r.stream with
        sendLen := 0
        needSendLen := r.stream.sendBuf.length
        sendBuf := r.stream.sendBuf
        writePending := false || r.stream.writePending } } := by
  have htotal := h.sending hpending
  rw [hzero, Nat.zero_add] at htotal
  rw [← htotal, ← hzero, Bool.false_or]

theorem WellFormed.asyncSendBytes_of_refused {r : StreamRequests Cb} (h : r.WellFormed)
    (hpending : r.stream.writePending = true) {added : Bool} {vecBytes : List UInt8}
    {cb : Option Cb} (hrefused : r.SendRefused added vecBytes cb) :
    r.asyncSendBytes added vecBytes cb = (false, r) := by
  have hcall := r.sendCall added vecBytes cb
  unfold SendRefused at hrefused
  generalize r.asyncSendBytes added vecBytes cb = out at hcall
  cases hcall with
  | refuses cb => rfl
  | takes c hle =>
      rcases hrefused with hnone | hlong | ⟨rfl, hcb, rfl, hzero⟩
      · exact absurd hnone nofun
      · exact absurd hlong (Nat.not_lt.mpr hle)
      · rw [hcb]
        exact congrArg (Prod.mk false) (h.repeatSend hpending hzero).symm

theorem resize_length (buf : List UInt8) : Stream.resize buf buf.length = buf := by
  rw [Stream.resize, List.take_length, Nat.sub_self, List.replicate_zero, List.append_nil]

theorem WellFormed.repeatRecv {r : StreamRequests Cb} (h : r.WellFormed)
    (hpending : r.stream.readPending = true) (hzero : r.stream.recvLen = 0) :
    r = { r with
      stream := { r.stream with
        recvLen := 0
        needRecvLen := ((r.stream.recvBuf.length : ℕ) : ℤ).toNat
        recvBuf := Stream.resize r.stream.recvBuf ((r.stream.recvBuf.length : ℕ) : ℤ).toNat
        readPending := false || r.stream.readPending } } := by
  obtain ⟨buf, part, hcollects⟩ := h.receiving hpending
  have hpart := hcollects.recvLen
  have htotal := hcollects.total
  rw [← hcollects.length, ← hpart, hzero, Nat.zero_add] at htotal
  rw [Int.toNat_natCast, resize_length, ← htotal, ← hzero, Bool.false_or]

theorem WellFormed.asyncRecvBytes_of_refused {r : StreamRequests Cb} (h : r.WellFormed)
    (hpending : r.stream.readPending = true) {added : Bool} {num : ℤ} {cb : Option Cb}
    (hrefused : r.RecvRefused added num cb) : r.asyncRecvBytes added num cb = (false, r) := by
  have hcall := r.recvCall added num cb
  unfold RecvRefused at hrefused
  generalize r.asyncRecvBytes added num cb = out at hcall
  cases hcall with
  | refuses cb => rfl
  | takes c hpos hle =>
      rcases hrefused with hnone | hneg | hlong | ⟨rfl, hcb, rfl, hzero⟩
      · exact absurd hnone nofun
      · omega
      · omega
      · rw [hcb]
        exact congrArg (Prod.mk false) (h.repeatRecv hpending hzero).symm

/-! ## Requests in turn -/

/-- Every request to send was answered, in order, or is the one on its way; and if
nothing fails, the bytes follow one another. -/
structure SendsInOrder (r : StreamRequests Cb) (requests : List (Cb × List UInt8))
    (calls : List (Cb × StreamStat)) (wire : List UInt8) (failed : Bool) : Prop where
  callbacks : calls.map Prod.fst ++
    (if r.stream.writePending then r.sendCompleteCallback.toList else []) = requests.map Prod.fst
  bytes : failed = false → wire ++ r.stream.unsent = requests.flatMap Prod.snd

structure RecvsInOrder (r : StreamRequests Cb) (requests : List (Cb × ℤ))
    (calls : List (Cb × StreamStat × List UInt8)) (arrived : List UInt8) (failed : Bool) :
    Prop where
  callbacks : calls.map Prod.fst ++
    (if r.stream.readPending then r.recvCompleteCallback.toList else []) = requests.map Prod.fst
  bytes : failed = false → (calls.flatMap fun p => p.2.2) ++ r.gathered = arrived

section

variable {r t : StreamRequests Cb} {e : RequestEvent Cb} {failed : Bool}

theorem SendsInOrder.asyncSendBytes {requests : List (Cb × List UInt8)}
    {calls : List (Cb × StreamStat)} {wire : List UInt8}
    (h : SendsInOrder r requests calls wire failed) (hwell : r.WellFormed) {added : Bool}
    {vecBytes : List UInt8} {cb : Option Cb}
    (hturn : r.stream.writePending = true → r.SendRefused added vecBytes cb) :
    SendsInOrder (r.asyncSendBytes added vecBytes cb).2
      (requests ++ sendRequests r (.asyncSendBytes added vecBytes cb)) calls wire failed := by
  change SendsInOrder _ (requests ++
    if (r.asyncSendBytes added vecBytes cb).1 then cb.toList.map fun c => (c, vecBytes) else [])
    calls wire failed
  by_cases hpending : r.stream.writePending = true
  · rw [hwell.asyncSendBytes_of_refused hpending (hturn hpending), if_neg Bool.false_ne_true,
      List.append_nil]
    exact h
  · have hidle : r.stream.writePending = false := by simpa using hpending
    have hcallbacks := h.callbacks
    have hbytes := h.bytes
    rw [hidle, if_neg Bool.false_ne_true, List.append_nil] at hcallbacks
    rw [Stream.unsent, hidle, if_neg Bool.false_ne_true] at hbytes
    have hcall := r.sendCall added vecBytes cb
    generalize r.asyncSendBytes added vecBytes cb = out at hcall
    cases hcall with
    | refuses =>
        rw [if_neg Bool.false_ne_true, List.append_nil]
        exact h
    | takes c hle =>
        cases added with
        | false =>
            rw [if_neg Bool.false_ne_true, List.append_nil]
            refine ⟨?_, fun hok => ?_⟩
            · simpa [hidle] using hcallbacks
            · simpa [Stream.unsent, hidle] using hbytes hok
        | true =>
            rw [if_pos rfl]
            refine ⟨?_, fun hok => ?_⟩
            · simpa using hcallbacks
            · simpa [Stream.unsent] using hbytes hok

/-- A write event answers the request and leaves the table, or it is added again. -/
theorem sendOnePack_answers (st : Stream) (res : SendResult) :
    ((st.sendOnePack res).2 = none ∧
      (st.sendOnePack res).1.writePending = st.writePending) ∨
      ∃ stat, (st.sendOnePack res).2 = some stat ∧
        (st.sendOnePack res).1.writePending = false := by
  cases res with
  | again => exact .inl ⟨rfl, rfl⟩
  | error => exact .inr ⟨_, rfl, rfl⟩
  | zero => exact .inr ⟨_, rfl, rfl⟩
  | sent len =>
      rw [Stream.sendOnePack]
      split_ifs
      · exact .inl ⟨rfl, rfl⟩
      · exact .inr ⟨_, rfl, rfl⟩

theorem sendOnePack_ne_senderr {st : Stream} {res : SendResult} (hres : res.fails = false) :
    (st.sendOnePack res).2 ≠ some .senderr := by
  cases res with
  | again => exact nofun
  | error => exact absurd hres nofun
  | zero => exact absurd hres nofun
  | sent len =>
      rw [Stream.sendOnePack]
      split_ifs <;> simp

theorem SendsInOrder.writable {requests : List (Cb × List UInt8)}
    {calls : List (Cb × StreamStat)} {wire : List UInt8}
    (h : SendsInOrder r requests calls wire failed) (hwell : r.WellFormed) {res : SendResult}
    (hpending : r.stream.writePending = true) (hmay : r.stream.maySend res = true) :
    SendsInOrder { r with stream := (r.stream.sendOnePack res).1 } requests
      (calls ++ sendCalls r (.writable res)) (wire ++ r.stream.taken res)
      (failed || res.fails) := by
  obtain ⟨c, hc⟩ := hwell.sendCallback hpending
  have hcallbacks := h.callbacks
  rw [hpending, if_pos rfl, hc] at hcallbacks
  refine ⟨?_, fun hok => ?_⟩
  · change (calls ++ (Option.map₂ Prod.mk r.sendCompleteCallback
      (r.stream.sendOnePack res).2).toList).map Prod.fst ++ _ = _
    rw [hc]
    rcases sendOnePack_answers r.stream res with ⟨hnone, hwrite⟩ | ⟨stat, hsome, hwrite⟩
    · simpa [hnone, hwrite, hpending] using hcallbacks
    · simpa [hsome, hwrite] using hcallbacks
  · obtain ⟨hfine, hres⟩ := Bool.or_eq_false_iff.mp hok
    have hbytes := hwell.sending.sendOnePack hpending hmay (sendOnePack_ne_senderr hres)
    rw [← h.bytes hfine, hbytes.1, List.append_assoc]

theorem SendsInOrder.of_sameSend {requests : List (Cb × List UInt8)}
    {calls : List (Cb × StreamStat)} {wire : List UInt8}
    (h : SendsInOrder r requests calls wire failed) (hsame : r.stream.SameSend t.stream)
    (hcallback : t.sendCompleteCallback = r.sendCompleteCallback) :
    SendsInOrder t requests calls wire failed := by
  refine ⟨?_, fun hok => ?_⟩
  · rw [hsame.2.2.2, hcallback]
    exact h.callbacks
  · rw [hsame.unsent]
    exact h.bytes hok

/-- One step of a run whose requests are made in turn. -/
theorem SendsInOrder.step {requests : List (Cb × List UInt8)}
    {calls : List (Cb × StreamStat)} {wire : List UInt8}
    (h : SendsInOrder r requests calls wire failed) (hwell : r.WellFormed) (hturn : r.InTurn e)
    (ht : StreamRequests.step r e = some t) :
    SendsInOrder t (requests ++ sendRequests r e) (calls ++ sendCalls r e)
      (wire ++ handed r e) (failed || e.sendFails) := by
  cases e with
  | asyncSendBytes added vecBytes cb =>
      rw [← Option.some.inj ht]
      simpa [sendCalls, handed, RequestEvent.sendFails] using h.asyncSendBytes hwell hturn
  | asyncRecvBytes added num cb =>
      rw [← Option.some.inj ht]
      have hcall := r.recvCall added num cb
      generalize r.asyncRecvBytes added num cb = out at hcall
      have hkept : SendsInOrder out.2 requests calls wire failed := by
        cases hcall with
        | refuses => exact h
        | takes c hpos hle => exact h.of_sameSend ⟨rfl, rfl, rfl, rfl⟩ rfl
      simpa [sendRequests, sendCalls, handed, RequestEvent.sendFails] using hkept
  | readable res =>
      simp only [StreamRequests.step, Option.ite_none_right_eq_some, Option.some.injEq] at ht
      obtain ⟨-, rfl⟩ := ht
      simpa [sendRequests, sendCalls, handed, RequestEvent.sendFails] using
        h.of_sameSend (t := { r with stream := (r.stream.recvOnePack res).1 })
          (Stream.sameSend_recvOnePack r.stream res) rfl
  | writable res =>
      simp only [StreamRequests.step, Option.ite_none_right_eq_some, Option.some.injEq] at ht
      obtain ⟨⟨hwrite, hmay⟩, rfl⟩ := ht
      have hwritten := h.writable hwell hwrite hmay
      rwa [← List.append_nil requests] at hwritten

/-! The receiving side. -/

theorem gathered_eq {st : Stream} {buf part : List UInt8} (h : st.Collects buf part) :
    st.recvBuf.take st.recvLen = part := by
  rw [h.recvBuf, h.recvLen, List.take_left' rfl]

theorem RecvsInOrder.asyncRecvBytes {requests : List (Cb × ℤ)}
    {calls : List (Cb × StreamStat × List UInt8)} {arrived : List UInt8}
    (h : RecvsInOrder r requests calls arrived failed) (hwell : r.WellFormed) {added : Bool}
    {num : ℤ} {cb : Option Cb}
    (hturn : r.stream.readPending = true → r.RecvRefused added num cb) :
    RecvsInOrder (r.asyncRecvBytes added num cb).2
      (requests ++ recvRequests r (.asyncRecvBytes added num cb)) calls arrived failed := by
  change RecvsInOrder _ (requests ++
    if (r.asyncRecvBytes added num cb).1 then cb.toList.map fun c => (c, num) else [])
    calls arrived failed
  by_cases hpending : r.stream.readPending = true
  · rw [hwell.asyncRecvBytes_of_refused hpending (hturn hpending), if_neg nofun, List.append_nil]
    exact h
  · have hidle : r.stream.readPending = false := by simpa using hpending
    have hcallbacks := h.callbacks
    have hbytes := h.bytes
    rw [hidle, if_neg nofun, List.append_nil] at hcallbacks
    rw [gathered, hidle, if_neg nofun] at hbytes
    have hcall := r.recvCall added num cb
    generalize r.asyncRecvBytes added num cb = out at hcall
    cases hcall with
    | refuses =>
        rw [if_neg nofun, List.append_nil]
        exact h
    | takes c hpos hle =>
        cases added with
        | false =>
            rw [if_neg nofun, List.append_nil]
            refine ⟨?_, fun hok => ?_⟩
            · simpa [hidle] using hcallbacks
            · simpa [gathered, hidle] using hbytes hok
        | true =>
            rw [if_pos rfl]
            refine ⟨?_, fun hok => ?_⟩
            · simpa using hcallbacks
            · simpa [gathered] using hbytes hok

theorem RecvsInOrder.readable {requests : List (Cb × ℤ)}
    {calls : List (Cb × StreamStat × List UInt8)} {arrived : List UInt8}
    (h : RecvsInOrder r requests calls arrived failed) (hwell : r.WellFormed) {res : RecvResult}
    (hpending : r.stream.readPending = true) (hmay : r.stream.mayRecv res = true) :
    RecvsInOrder { r with stream := (r.stream.recvOnePack res).1 } requests
      (calls ++ recvCalls r (.readable res)) (arrived ++ res.bytes) (failed || res.fails) := by
  obtain ⟨c, hc⟩ := hwell.recvCallback hpending
  obtain ⟨buf, part, hcollects⟩ := hwell.receiving hpending
  have hcallbacks := h.callbacks
  have hbytes := h.bytes
  rw [hpending, if_pos rfl, hc] at hcallbacks
  rw [gathered, hpending, if_pos rfl, gathered_eq hcollects] at hbytes
  change RecvsInOrder _ _ (calls ++ (Option.map₂ Prod.mk r.recvCompleteCallback
      (r.stream.recvOnePack res).2).toList) _ _
  rw [hc]
  have htook := hcollects.took hmay
  generalize r.stream.recvOnePack res = out at htook
  cases htook with
  | again st' h' =>
      refine ⟨?_, fun hok => ?_⟩
      · simpa [h'.pending] using hcallbacks
      · simpa [gathered, h'.pending, gathered_eq h', RecvResult.bytes] using
          hbytes (Bool.or_eq_false_iff.mp hok).1
  | more st' bytes h' =>
      refine ⟨?_, fun hok => ?_⟩
      · simpa [h'.pending] using hcallbacks
      · simp [gathered, h'.pending, gathered_eq h', RecvResult.bytes, ←
          hbytes (Bool.or_eq_false_iff.mp hok).1]
  | full st' bytes hlen hread hbuf =>
      refine ⟨?_, fun hok => ?_⟩
      · simpa [hread] using hcallbacks
      · simp [gathered, hread, RecvResult.bytes, ← hbytes (Bool.or_eq_false_iff.mp hok).1]
  | closed st' hread hbuf =>
      refine ⟨?_, fun hok => ?_⟩
      · simpa [hread] using hcallbacks
      · exact absurd (Bool.or_eq_false_iff.mp hok).2 (by decide)
  | error st' hread hbuf =>
      refine ⟨?_, fun hok => ?_⟩
      · simpa [hread] using hcallbacks
      · exact absurd (Bool.or_eq_false_iff.mp hok).2 (by decide)

theorem RecvsInOrder.of_sameReceive {requests : List (Cb × ℤ)}
    {calls : List (Cb × StreamStat × List UInt8)} {arrived : List UInt8}
    (h : RecvsInOrder r requests calls arrived failed)
    (hread : t.stream.readPending = r.stream.readPending)
    (hlen : t.stream.recvLen = r.stream.recvLen) (hbuf : t.stream.recvBuf = r.stream.recvBuf)
    (hcallback : t.recvCompleteCallback = r.recvCompleteCallback) :
    RecvsInOrder t requests calls arrived failed := by
  refine ⟨?_, fun hok => ?_⟩
  · rw [hread, hcallback]
    exact h.callbacks
  · rw [gathered, hread, hlen, hbuf]
    exact h.bytes hok

theorem RecvsInOrder.step {requests : List (Cb × ℤ)}
    {calls : List (Cb × StreamStat × List UInt8)} {arrived : List UInt8}
    (h : RecvsInOrder r requests calls arrived failed) (hwell : r.WellFormed)
    (hturn : r.InTurn e) (ht : StreamRequests.step r e = some t) :
    RecvsInOrder t (requests ++ recvRequests r e) (calls ++ recvCalls r e)
      (arrived ++ e.arrived) (failed || e.recvFails) := by
  cases e with
  | asyncRecvBytes added num cb =>
      rw [← Option.some.inj ht]
      simpa [recvCalls, RequestEvent.arrived, RequestEvent.recvFails] using
        h.asyncRecvBytes hwell hturn
  | asyncSendBytes added vecBytes cb =>
      rw [← Option.some.inj ht]
      have hcall := r.sendCall added vecBytes cb
      generalize r.asyncSendBytes added vecBytes cb = out at hcall
      have hkept : RecvsInOrder out.2 requests calls arrived failed := by
        cases hcall with
        | refuses => exact h
        | takes c hle => exact h.of_sameReceive rfl rfl rfl rfl
      simpa [recvRequests, recvCalls, RequestEvent.arrived, RequestEvent.recvFails] using hkept
  | writable res =>
      simp only [StreamRequests.step, Option.ite_none_right_eq_some, Option.some.injEq] at ht
      obtain ⟨-, rfl⟩ := ht
      obtain ⟨hread, hlen, -, hbuf, -⟩ := r.stream.sameReceive_sendOnePack res
      simpa [recvRequests, recvCalls, RequestEvent.arrived, RequestEvent.recvFails] using
        h.of_sameReceive (t := { r with stream := (r.stream.sendOnePack res).1 }) hread hlen hbuf
          rfl
  | readable res =>
      simp only [StreamRequests.step, Option.ite_none_right_eq_some, Option.some.injEq] at ht
      obtain ⟨⟨hread, hmay⟩, rfl⟩ := ht
      have hreceived := h.readable hwell hread hmay
      rwa [← List.append_nil requests] at hreceived

end

/-! ## Runs -/

theorem sendsInOrder_of_run {es : List (RequestEvent Cb)} {r : StreamRequests Cb}
    (hrun : run step new es = some r) (hal : Along InTurn step new es) :
    SendsInOrder r (sendRequestsOf new es) (sendCallsOf new es) (wireOf new es)
      (es.any RequestEvent.sendFails) := by
  have hinv := run_trace_invariant_along (h := [])
    (I := fun (s : StreamRequests Cb) hist => s.WellFormed ∧
      SendsInOrder s (hist.flatMap fun p => sendRequests p.1 p.2)
        (hist.flatMap fun p => sendCalls p.1 p.2) (hist.flatMap fun p => handed p.1 p.2)
        ((hist.map Prod.snd).any RequestEvent.sendFails))
    (fun s hist e t hs hturn ht => ⟨hs.1.step ht, by simpa using hs.2.step hs.1 hturn ht⟩)
    ⟨wellFormed_new, ⟨rfl, fun _ => rfl⟩⟩ hal hrun
  rw [List.nil_append, trace_map_snd hrun] at hinv
  exact hinv.2

theorem recvsInOrder_of_run {es : List (RequestEvent Cb)} {r : StreamRequests Cb}
    (hrun : run step new es = some r) (hal : Along InTurn step new es) :
    RecvsInOrder r (recvRequestsOf new es) (recvCallsOf new es)
      (es.flatMap RequestEvent.arrived) (es.any RequestEvent.recvFails) := by
  have hinv := run_trace_invariant_along (h := [])
    (I := fun (s : StreamRequests Cb) hist => s.WellFormed ∧
      RecvsInOrder s (hist.flatMap fun p => recvRequests p.1 p.2)
        (hist.flatMap fun p => recvCalls p.1 p.2)
        ((hist.map Prod.snd).flatMap RequestEvent.arrived)
        ((hist.map Prod.snd).any RequestEvent.recvFails))
    (fun s hist e t hs hturn ht => ⟨hs.1.step ht, by simpa using hs.2.step hs.1 hturn ht⟩)
    ⟨wellFormed_new, ⟨rfl, fun _ => rfl⟩⟩ hal hrun
  rw [List.nil_append, trace_map_snd hrun] at hinv
  exact hinv.2

end StreamRequests

end Banana
