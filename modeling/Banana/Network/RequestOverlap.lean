import Banana.Network.RequestAdmission

/-!
# A request during another

A request that passes the checks takes the place of the one on its way: there is one
buffer, one offset and one callback for each direction.  `KeepsSend` and `KeepsRecv`
say that the request on its way survives a further one, and `InTurn` says when it
does.  The check of a buffer sees its size as an `int`.
-/

namespace Banana

open Transition

namespace StreamFields

variable {Cb : Type*}

namespace Event

def sendFails : Event Cb → Bool
  | writable _ res => res.fails
  | _ => false

def recvFails : Event Cb → Bool
  | readable _ res => res.fails
  | _ => false

def arrived : Event Cb → List UInt8
  | readable _ res => res.bytes
  | _ => []

/-- An event that has to be added again is. -/
def readds : Event Cb → Bool
  | readable added _ => added
  | writable added _ => added
  | _ => true

end Event

/-- The requests to send that are accepted. -/
def sendRequests (f : StreamFields Cb) : Event Cb → List (Cb × List UInt8)
  | .asyncSendBytes added vecBytes cb =>
      if (f.asyncSendBytes added vecBytes cb).1 then cb.toList.map fun c => (c, vecBytes) else []
  | _ => []

def recvRequests (f : StreamFields Cb) : Event Cb → List (Cb × ℤ)
  | .asyncRecvBytes added num cb =>
      if (f.asyncRecvBytes added num cb).1 then cb.toList.map fun c => (c, num.val) else []
  | _ => []

/-- The bytes of the buffer that `send` takes. -/
def taken (f : StreamFields Cb) : SendResult → List UInt8
  | .sent len => (f.sendBuf.drop f.sendLen.toNat).take len
  | _ => []

def handed (f : StreamFields Cb) : Event Cb → List UInt8
  | .writable _ res => f.taken res
  | _ => []

def sendRequestsOf (f : StreamFields Cb) (es : List (Event Cb)) : List (Cb × List UInt8) :=
  (trace step f es).flatMap fun p => sendRequests p.1 p.2

def recvRequestsOf (f : StreamFields Cb) (es : List (Event Cb)) : List (Cb × ℤ) :=
  (trace step f es).flatMap fun p => recvRequests p.1 p.2

def wireOf (f : StreamFields Cb) (es : List (Event Cb)) : List UInt8 :=
  (trace step f es).flatMap fun p => handed p.1 p.2

/-- What is left to send of the request on its way. -/
def unsent (f : StreamFields Cb) : List UInt8 :=
  if f.writePending then f.sendBuf.drop f.sendLen.toNat else []

/-- What has arrived for the request on its way. -/
def gathered (f : StreamFields Cb) : List UInt8 :=
  if f.readPending then f.recvBuf.take f.recvLen.toNat else []

/-! ## A further request -/

/-- Either the further request is refused and changes nothing, or both are answered
in order and the bytes of the second follow those of the first. -/
def KeepsSend (f : StreamFields Cb) (added : Bool) (vecBytes : List UInt8)
    (cb : Option Cb) : Prop :=
  ((f.asyncSendBytes added vecBytes cb).1 = false ∧ (f.asyncSendBytes added vecBytes cb).2 = f) ∨
    ((f.asyncSendBytes added vecBytes cb).1 = true ∧
      ∀ es u, es.all (fun e => !e.isSend && e.readds) = true →
        run step (f.asyncSendBytes added vecBytes cb).2 es = some u →
        u.writePending = false →
        (sendCallsOf (f.asyncSendBytes added vecBytes cb).2 es).map Prod.fst =
          f.sendCompleteCallback.toList ++ cb.toList ∧
        (es.any Event.sendFails = false →
          wireOf (f.asyncSendBytes added vecBytes cb).2 es = f.unsent ++ vecBytes))

def KeepsRecv (f : StreamFields Cb) (added : Bool) (num : NativeInt) (cb : Option Cb) : Prop :=
  ((f.asyncRecvBytes added num cb).1 = false ∧ (f.asyncRecvBytes added num cb).2 = f) ∨
    ((f.asyncRecvBytes added num cb).1 = true ∧
      ∀ es u, es.all (fun e => !e.isRecv && e.readds) = true →
        run step (f.asyncRecvBytes added num cb).2 es = some u →
        u.readPending = false →
        (recvCallsOf (f.asyncRecvBytes added num cb).2 es).map Prod.fst =
          f.recvCompleteCallback.toList ++ cb.toList ∧
        (es.any Event.recvFails = false →
          ((recvCallsOf (f.asyncRecvBytes added num cb).2 es).flatMap fun p => p.2.2) =
            f.gathered ++ es.flatMap Event.arrived))

/-- The arguments are refused, or the call fails and repeats the request on its way, of
which nothing has been sent. -/
def SendRefused (f : StreamFields Cb) (added : Bool) (vecBytes : List UInt8)
    (cb : Option Cb) : Prop :=
  cb = none ∨ 1024 < sendSize vecBytes ∨
    (added = false ∧ cb = f.sendCompleteCallback ∧ vecBytes = f.sendBuf ∧ f.sendLen = 0)

def RecvRefused (f : StreamFields Cb) (added : Bool) (num : NativeInt) (cb : Option Cb) : Prop :=
  cb = none ∨ num.val ≤ 0 ∨ 1024 < num.val ∨
    (added = false ∧ cb = f.recvCompleteCallback ∧ num.val = f.recvBuf.length ∧ f.recvLen = 0)

instance [DecidableEq Cb] (f : StreamFields Cb) (added : Bool) (vecBytes : List UInt8)
    (cb : Option Cb) : Decidable (f.SendRefused added vecBytes cb) :=
  inferInstanceAs (Decidable (_ ∨ _ ∨ (_ ∧ _ ∧ _ ∧ _)))

instance [DecidableEq Cb] (f : StreamFields Cb) (added : Bool) (num : NativeInt)
    (cb : Option Cb) : Decidable (f.RecvRefused added num cb) :=
  inferInstanceAs (Decidable (_ ∨ _ ∨ _ ∨ (_ ∧ _ ∧ _ ∧ _)))

/-- A request on its way survives the step. -/
def Keeps (f : StreamFields Cb) : Event Cb → Prop
  | .asyncRecvBytes added num cb => f.readPending = true → f.KeepsRecv added num cb
  | .asyncSendBytes added vecBytes cb => f.writePending = true → f.KeepsSend added vecBytes cb
  | _ => True

/-- While a request is on its way, a further one in the same direction is refused. -/
def InTurn (f : StreamFields Cb) : Event Cb → Prop
  | .asyncRecvBytes added num cb => f.readPending = true → f.RecvRefused added num cb
  | .asyncSendBytes added vecBytes cb => f.writePending = true → f.SendRefused added vecBytes cb
  | _ => True

instance [DecidableEq Cb] (f : StreamFields Cb) : ∀ e, Decidable (f.InTurn e)
  | .asyncRecvBytes _ _ _ => inferInstanceAs (Decidable (_ → _))
  | .asyncSendBytes _ _ _ => inferInstanceAs (Decidable (_ → _))
  | .readable _ _ => inferInstanceAs (Decidable True)
  | .writable _ _ => inferInstanceAs (Decidable True)

/-! ## Reachable states -/

/-- A request on its way has a callback, and its offset and length make up the size. -/
structure WellFormed (f : StreamFields Cb) : Prop where
  sendTotal : f.writePending = true → f.sendLen + f.needSendLen = sendSize f.sendBuf
  sendCallback : f.writePending = true → ∃ c, f.sendCompleteCallback = some c
  recvTotal : f.readPending = true → 0 ≤ f.recvLen ∧ f.recvLen + f.needRecvLen = f.recvBuf.length
  recvCallback : f.readPending = true → ∃ c, f.recvCompleteCallback = some c

theorem wellFormed_new : (new : StreamFields Cb).WellFormed :=
  ⟨nofun, nofun, nofun, nofun⟩

theorem length_store {f : StreamFields Cb} {bytes : List UInt8}
    (hroom : f.recvLen.toNat + bytes.length ≤ f.recvBuf.length) :
    (f.store bytes).length = f.recvBuf.length := by
  rw [store, List.length_append, List.length_append, List.length_take, List.length_drop]
  omega

theorem WellFormed.recvOnePack {f : StreamFields Cb} (h : f.WellFormed)
    (hpending : f.readPending = true) (added : Bool) (res : RecvResult) :
    (f.recvOnePack added res).1.WellFormed := by
  obtain ⟨hnonneg, htotal⟩ := h.recvTotal hpending
  cases res with
  | closed | error =>
      exact ⟨h.sendTotal, h.sendCallback, Bool.false_ne_true.elim, Bool.false_ne_true.elim⟩
  | again =>
      exact ⟨h.sendTotal, h.sendCallback, fun _ => ⟨hnonneg, htotal⟩,
        fun _ => h.recvCallback hpending⟩
  | data bytes =>
      rw [StreamFields.recvOnePack]
      split_ifs with hlt
      · refine ⟨h.sendTotal, h.sendCallback, fun _ => ?_, fun _ => h.recvCallback hpending⟩
        have hlen : (f.store bytes).length = f.recvBuf.length := length_store (by omega)
        dsimp only
        omega
      · exact ⟨h.sendTotal, h.sendCallback, Bool.false_ne_true.elim, Bool.false_ne_true.elim⟩

theorem WellFormed.sendOnePack {f : StreamFields Cb} (h : f.WellFormed)
    (hpending : f.writePending = true) (added : Bool) (res : SendResult) :
    (f.sendOnePack added res).1.WellFormed := by
  have htotal := h.sendTotal hpending
  cases res with
  | error | zero =>
      exact ⟨Bool.false_ne_true.elim, Bool.false_ne_true.elim, h.recvTotal, h.recvCallback⟩
  | again =>
      exact ⟨fun _ => htotal, fun _ => h.sendCallback hpending, h.recvTotal, h.recvCallback⟩
  | sent len =>
      rw [StreamFields.sendOnePack]
      split_ifs with hlt
      · refine ⟨fun _ => ?_, fun _ => h.sendCallback hpending, h.recvTotal, h.recvCallback⟩
        dsimp only
        omega
      · exact ⟨Bool.false_ne_true.elim, Bool.false_ne_true.elim, h.recvTotal, h.recvCallback⟩

theorem WellFormed.step {f t : StreamFields Cb} {e : Event Cb} (h : f.WellFormed)
    (ht : step f e = some t) : t.WellFormed := by
  cases e with
  | asyncRecvBytes added num cb =>
      rw [← Option.some.inj ht]
      have hcall := f.recvCall added num cb
      generalize f.asyncRecvBytes added num cb = out at hcall
      cases hcall with
      | refuses => exact h
      | takes c hpos hle =>
          refine ⟨h.sendTotal, h.sendCallback, fun _ => ⟨le_rfl, ?_⟩, fun _ => ⟨c, rfl⟩⟩
          dsimp only
          rw [Stream.length_resize, Int.toNat_of_nonneg hpos.le, zero_add]
  | asyncSendBytes added vecBytes cb =>
      rw [← Option.some.inj ht]
      have hcall := f.sendCall added vecBytes cb
      generalize f.asyncSendBytes added vecBytes cb = out at hcall
      cases hcall with
      | refuses => exact h
      | takes c hle =>
          refine ⟨fun _ => ?_, fun _ => ⟨c, rfl⟩, h.recvTotal, h.recvCallback⟩
          dsimp only
          rw [zero_add]
  | readable added res =>
      simp only [StreamFields.step, Option.ite_none_right_eq_some, Option.some.injEq] at ht
      obtain ⟨⟨hpending, -⟩, rfl⟩ := ht
      exact h.recvOnePack hpending added res
  | writable added res =>
      simp only [StreamFields.step, Option.ite_none_right_eq_some, Option.some.injEq] at ht
      obtain ⟨⟨hpending, -⟩, rfl⟩ := ht
      exact h.sendOnePack hpending added res

theorem wellFormed_of_run {es : List (Event Cb)} {f : StreamFields Cb}
    (hrun : run step new es = some f) : f.WellFormed :=
  run_invariant (fun _ _ _ hs ht => hs.step ht) wellFormed_new hrun

/-! ## When a further request is harmless -/

theorem WellFormed.asyncSendBytes_of_refused {f : StreamFields Cb} (h : f.WellFormed)
    (hpending : f.writePending = true) {added : Bool} {vecBytes : List UInt8} {cb : Option Cb}
    (hrefused : f.SendRefused added vecBytes cb) :
    f.asyncSendBytes added vecBytes cb = (false, f) := by
  have hcall := f.sendCall added vecBytes cb
  unfold SendRefused at hrefused
  generalize f.asyncSendBytes added vecBytes cb = out at hcall
  cases hcall with
  | refuses => rfl
  | takes c hle =>
      rcases hrefused with hnone | hlong | ⟨rfl, hcb, rfl, hzero⟩
      · exact absurd hnone nofun
      · omega
      · have hneed := h.sendTotal hpending
        rw [hzero, zero_add] at hneed
        exact congrArg (Prod.mk false) (repeatSend hzero hneed rfl hcb.symm)

theorem WellFormed.asyncRecvBytes_of_refused {f : StreamFields Cb} (h : f.WellFormed)
    (hpending : f.readPending = true) {added : Bool} {num : NativeInt} {cb : Option Cb}
    (hrefused : f.RecvRefused added num cb) : f.asyncRecvBytes added num cb = (false, f) := by
  have hcall := f.recvCall added num cb
  unfold RecvRefused at hrefused
  generalize f.asyncRecvBytes added num cb = out at hcall
  cases hcall with
  | refuses => rfl
  | takes c hpos hle =>
      rcases hrefused with hnone | hneg | hlong | ⟨rfl, hcb, hnum, hzero⟩
      · exact absurd hnone nofun
      · omega
      · omega
      · have hneed := (h.recvTotal hpending).2
        rw [hzero, zero_add, ← hnum] at hneed
        exact congrArg (Prod.mk false) (repeatRecv hzero hneed hnum.symm hcb.symm)

theorem WellFormed.keepsSend_iff {f : StreamFields Cb} (h : f.WellFormed)
    (hpending : f.writePending = true) (added : Bool) (vecBytes : List UInt8)
    (cb : Option Cb) : f.KeepsSend added vecBytes cb ↔ f.SendRefused added vecBytes cb := by
  refine ⟨fun hkeeps => ?_, fun hrefused => ?_⟩
  · have hcall := f.sendCall added vecBytes cb
    unfold KeepsSend at hkeeps
    generalize f.asyncSendBytes added vecBytes cb = out at hcall hkeeps
    cases hcall with
    | refuses cb hrefused => exact hrefused.imp_right .inl
    | takes c hle =>
        rcases hkeeps with ⟨hadded, hsame⟩ | ⟨hadded, hall⟩
        · refine .inr (.inr ⟨hadded, ?_, ?_, ?_⟩)
          · exact congrArg sendCompleteCallback hsame
          · exact congrArg sendBuf hsame
          · exact (congrArg sendLen hsame).symm
        · -- a write event ends the second request, and the first is never answered
          obtain rfl : added = true := hadded
          obtain ⟨c', hc'⟩ := h.sendCallback hpending
          have hcalls := (hall [.writable true .error] _ rfl rfl rfl).1
          rw [sendCallsOf_singleton rfl, hc'] at hcalls
          have hlen : 1 = 2 := congrArg List.length hcalls
          exact absurd hlen (by decide)
  · have hsame := h.asyncSendBytes_of_refused hpending hrefused
    exact .inl ⟨congrArg Prod.fst hsame, congrArg Prod.snd hsame⟩

theorem WellFormed.keepsRecv_iff {f : StreamFields Cb} (h : f.WellFormed)
    (hpending : f.readPending = true) (added : Bool) (num : NativeInt) (cb : Option Cb) :
    f.KeepsRecv added num cb ↔ f.RecvRefused added num cb := by
  refine ⟨fun hkeeps => ?_, fun hrefused => ?_⟩
  · have hcall := f.recvCall added num cb
    unfold KeepsRecv at hkeeps
    generalize f.asyncRecvBytes added num cb = out at hcall hkeeps
    cases hcall with
    | refuses cb hrefused => exact hrefused.imp_right (Or.imp_right .inl)
    | takes c hpos hle =>
        rcases hkeeps with ⟨hadded, hsame⟩ | ⟨hadded, hall⟩
        · refine .inr (.inr (.inr ⟨hadded, ?_, ?_, ?_⟩))
          · exact congrArg recvCompleteCallback hsame
          · have hbuf := congrArg (fun t => t.recvBuf.length) hsame
            have hlen := Stream.length_resize f.recvBuf num.val.toNat
            dsimp only at hbuf
            omega
          · exact (congrArg recvLen hsame).symm
        · obtain rfl : added = true := hadded
          obtain ⟨c', hc'⟩ := h.recvCallback hpending
          have hcalls := (hall [.readable true .error] _ rfl rfl rfl).1
          rw [recvCallsOf_singleton rfl, hc'] at hcalls
          have hlen : 1 = 2 := congrArg List.length hcalls
          exact absurd hlen (by decide)
  · have hsame := h.asyncRecvBytes_of_refused hpending hrefused
    exact .inl ⟨congrArg Prod.fst hsame, congrArg Prod.snd hsame⟩

theorem WellFormed.keeps_iff {f : StreamFields Cb} (h : f.WellFormed) (e : Event Cb) :
    f.Keeps e ↔ f.InTurn e := by
  cases e with
  | asyncRecvBytes added num cb =>
      exact forall_congr' fun hpending => h.keepsRecv_iff hpending added num cb
  | asyncSendBytes added vecBytes cb =>
      exact forall_congr' fun hpending => h.keepsSend_iff hpending added vecBytes cb
  | readable added res => exact Iff.rfl
  | writable added res => exact Iff.rfl

/-! ## Requests in turn -/

/-- Every request to send was answered, in order, or is the one on its way; and if
nothing fails, the bytes follow one another. -/
structure SendsInOrder (f : StreamFields Cb) (es : List (Event Cb)) : Prop where
  callbacks : (sendCallsOf new es).map Prod.fst ++
    (if f.writePending then f.sendCompleteCallback.toList else []) =
      (sendRequestsOf new es).map Prod.fst
  bytes : es.any Event.sendFails = false →
    wireOf new es ++ f.unsent = (sendRequestsOf new es).flatMap Prod.snd

structure RecvsInOrder (f : StreamFields Cb) (es : List (Event Cb)) : Prop where
  callbacks : (recvCallsOf new es).map Prod.fst ++
    (if f.readPending then f.recvCompleteCallback.toList else []) =
      (recvRequestsOf new es).map Prod.fst
  bytes : es.any Event.recvFails = false →
    ((recvCallsOf new es).flatMap fun p => p.2.2) ++ f.gathered = es.flatMap Event.arrived

theorem inTurn_ofRequests {r : StreamRequests Cb} {e : Event Cb} (he : e.Fits)
    (h : (ofRequests r).InTurn e) : r.InTurn e.toRequest := by
  cases e with
  | asyncRecvBytes added num cb =>
      intro hpending
      rcases h hpending with hnone | hneg | hlong | ⟨hadded, hcb, hnum, hzero⟩
      · exact .inl hnone
      · exact .inr (.inl hneg)
      · exact .inr (.inr (.inl hlong))
      · exact .inr (.inr (.inr ⟨hadded, hcb, hnum, Int.natCast_eq_zero.mp hzero⟩))
  | asyncSendBytes added vecBytes cb =>
      intro hpending
      have hsize := sendSize_of_lt he
      rcases h hpending with hnone | hlong | ⟨hadded, hcb, hbuf, hzero⟩
      · exact .inl hnone
      · exact .inr (.inl (by omega))
      · exact .inr (.inr ⟨hadded, hcb, hbuf, Int.natCast_eq_zero.mp hzero⟩)
  | readable added res => trivial
  | writable added res => trivial

theorem along_inTurn_ofRequests {r t : StreamRequests Cb} {es : List (Event Cb)} (h : Bounded r)
    (hes : ∀ e ∈ es, e.Fits) (hal : Along InTurn StreamFields.step (ofRequests r) es)
    (hrun : run StreamRequests.step r (es.map Event.toRequest) = some t) :
    Along StreamRequests.InTurn StreamRequests.step r (es.map Event.toRequest) := by
  induction es generalizing r with
  | nil => trivial
  | cons e es ih =>
      rw [List.map_cons] at hrun ⊢
      obtain ⟨v, hv, hrest⟩ := run_cons_eq_some.mp hrun
      have he := hes e List.mem_cons_self
      have hstep : StreamFields.step (ofRequests r) e = some (ofRequests v) := by
        rw [step_ofRequests h he, hv]
        rfl
      obtain ⟨hturn, hafter⟩ := (along_cons hstep).mp hal
      exact (along_cons hv).mpr ⟨inTurn_ofRequests he hturn,
        ih (h.step hv) (fun e' he' => hes e' (List.mem_cons_of_mem e he')) hafter hrest⟩

theorem requests_ofRequests {r : StreamRequests Cb} {e : Event Cb} (he : e.Fits) :
    sendRequests (ofRequests r) e = StreamRequests.sendRequests r e.toRequest ∧
      recvRequests (ofRequests r) e = StreamRequests.recvRequests r e.toRequest := by
  cases e with
  | asyncRecvBytes added num cb =>
      rw [recvRequests, asyncRecvBytes_ofRequests]
      exact ⟨rfl, rfl⟩
  | asyncSendBytes added vecBytes cb =>
      rw [sendRequests, asyncSendBytes_ofRequests r added he cb]
      exact ⟨rfl, rfl⟩
  | readable added res => exact ⟨rfl, rfl⟩
  | writable added res => exact ⟨rfl, rfl⟩

theorem handed_ofRequests (r : StreamRequests Cb) (e : Event Cb) :
    handed (ofRequests r) e = StreamRequests.handed r e.toRequest := by
  cases e with
  | writable added res => cases res <;> rfl
  | _ => rfl

theorem sendFails_toRequest (e : Event Cb) : e.toRequest.sendFails = e.sendFails := by
  cases e <;> rfl

theorem recvFails_toRequest (e : Event Cb) : e.toRequest.recvFails = e.recvFails := by
  cases e <;> rfl

theorem arrived_toRequest (e : Event Cb) : e.toRequest.arrived = e.arrived := by
  cases e <;> rfl

theorem sendsInOrder_ofRequests {r : StreamRequests Cb} {es : List (Event Cb)}
    (hes : ∀ e ∈ es, e.Fits)
    (hrun : run StreamRequests.step .new (es.map Event.toRequest) = some r)
    (hal : Along StreamRequests.InTurn StreamRequests.step .new (es.map Event.toRequest)) :
    SendsInOrder (ofRequests r) es := by
  have hrequests : sendRequestsOf new es = _ :=
    flatMap_trace_ofRequests (fun he _ => (requests_ofRequests he).1) bounded_new hes hrun
  have hcalls := sendCallsOf_ofRequests bounded_new hes hrun
  have hwire : wireOf new es = _ :=
    flatMap_trace_ofRequests (fun _ _ => handed_ofRequests _ _) bounded_new hes hrun
  obtain ⟨hcallbacks, hbytes⟩ := StreamRequests.sendsInOrder_of_run hrun hal
  constructor
  · rw [hrequests, show sendCallsOf new es = _ from hcalls]
    exact hcallbacks
  · intro hfine
    rw [hrequests, hwire]
    apply hbytes
    rw [List.any_map]
    exact (congrArg es.any (funext sendFails_toRequest)).trans hfine

theorem recvsInOrder_ofRequests {r : StreamRequests Cb} {es : List (Event Cb)}
    (hes : ∀ e ∈ es, e.Fits)
    (hrun : run StreamRequests.step .new (es.map Event.toRequest) = some r)
    (hal : Along StreamRequests.InTurn StreamRequests.step .new (es.map Event.toRequest)) :
    RecvsInOrder (ofRequests r) es := by
  have hrequests : recvRequestsOf new es = _ :=
    flatMap_trace_ofRequests (fun he _ => (requests_ofRequests he).2) bounded_new hes hrun
  have hcalls := recvCallsOf_ofRequests bounded_new hes hrun
  obtain ⟨hcallbacks, hbytes⟩ := StreamRequests.recvsInOrder_of_run hrun hal
  constructor
  · rw [hrequests, show recvCallsOf new es = _ from hcalls]
    exact hcallbacks
  · intro hfine
    have harrived : es.flatMap Event.arrived =
        (es.map Event.toRequest).flatMap StreamRequests.RequestEvent.arrived := by
      rw [List.flatMap_map]
      exact congrArg es.flatMap (funext fun e => (arrived_toRequest e).symm)
    rw [show recvCallsOf new es = _ from hcalls, harrived]
    apply hbytes
    rw [List.any_map]
    exact (congrArg es.any (funext recvFails_toRequest)).trans hfine

/-- In every state of every run, a request on its way survives a further one exactly
when the further one is refused.  In a run in which this holds of every request, with
buffers that an `int` can measure and events that are added again, all of them are
answered once, in order, and their bytes follow one another. -/
theorem keeps_iff_inTurn {es : List (Event Cb)} {f : StreamFields Cb}
    (hrun : run step new es = some f) :
    (∀ e, f.Keeps e ↔ f.InTurn e) ∧ (Along Keeps step new es ↔ Along InTurn step new es) ∧
      (Along InTurn step new es → (∀ e ∈ es, e.Fits) →
        f.SendsInOrder es ∧ f.RecvsInOrder es) := by
  have hwell := wellFormed_of_run hrun
  refine ⟨hwell.keeps_iff, ?_, fun hal hes => ?_⟩
  · exact along_congr (I := WellFormed) (fun _ _ _ hs ht => hs.step ht)
      (fun _ e _ hs _ => hs.keeps_iff e) wellFormed_new hrun
  · rw [run_new hes, Option.map_eq_some_iff] at hrun
    obtain ⟨r, hr, rfl⟩ := hrun
    have hturns := along_inTurn_ofRequests bounded_new hes hal hr
    exact ⟨sendsInOrder_ofRequests hes hr hturns, recvsInOrder_ofRequests hes hr hturns⟩

/-- Two replies, and between them one without a callback. -/
def twoReplies : List (Event ℕ) :=
  [.asyncSendBytes true [1, 2, 3] (some 1), .writable true (.sent 1),
    .asyncSendBytes true [9] none, .writable true (.sent 2),
    .asyncSendBytes true [4, 5] (some 2), .writable true (.sent 2)]

theorem keeps_iff_inTurn_twoReplies :
    Along Keeps step new twoReplies ∧ (sendCallsOf new twoReplies).map Prod.fst = [1, 2] ∧
      wireOf new twoReplies = [1, 2, 3, 4, 5] := by
  have hidle : (run step new twoReplies).map writePending = some false := by decide +kernel
  rw [Option.map_eq_some_iff] at hidle
  obtain ⟨f, hrun, hidle⟩ := hidle
  obtain ⟨-, hkeeps, horder⟩ := keeps_iff_inTurn hrun
  have hal : Along InTurn step new twoReplies := by decide +kernel
  obtain ⟨hcallbacks, hbytes⟩ := (horder hal (by decide +kernel)).1
  rw [hidle, if_neg Bool.false_ne_true, List.append_nil] at hcallbacks
  rw [unsent, hidle, if_neg Bool.false_ne_true, List.append_nil] at hbytes
  exact ⟨hkeeps.mpr hal, hcallbacks.trans (by decide +kernel),
    (hbytes rfl).trans (by decide +kernel)⟩

theorem sendSize_narrowed : sendSize (List.replicate 4294967301 0) = 5 := by
  rw [sendSize, NativeInt.ofNat_val, List.length_replicate]
  decide

/-- A reply of which one byte has been sent, and a further one, of two bytes or of a
size that narrows to 5: the rest of the first is lost, and its callback is never called.
Likewise for two requests to receive. -/
theorem not_keeps_overwritten :
    (∃ f : StreamFields ℕ, run step new
        [.asyncSendBytes true [1, 2, 3] (some 1), .writable true (.sent 1)] = some f ∧
      ¬ f.KeepsSend true [4, 5] (some 2) ∧
      sendCallsOf (f.asyncSendBytes true [4, 5] (some 2)).2 [.writable true (.sent 2)] =
        [(2, .sended)] ∧
      wireOf (f.asyncSendBytes true [4, 5] (some 2)).2 [.writable true (.sent 2)] = [4, 5] ∧
      ¬ f.KeepsSend true (List.replicate 4294967301 0) (some 2)) ∧
      ∃ f : StreamFields ℕ, run step new [.asyncRecvBytes true ⟨4, by decide⟩ (some 1)] = some f ∧
        ¬ f.KeepsRecv true ⟨2, by decide⟩ (some 2) := by
  constructor
  · have hfacts : (run step (new : StreamFields ℕ)
        [.asyncSendBytes true [1, 2, 3] (some 1), .writable true (.sent 1)]).map (fun f =>
          (f.writePending, decide (f.SendRefused true [4, 5] (some 2)),
            sendCallsOf (f.asyncSendBytes true [4, 5] (some 2)).2 [.writable true (.sent 2)],
            wireOf (f.asyncSendBytes true [4, 5] (some 2)).2 [.writable true (.sent 2)])) =
        some (true, false, [(2, .sended)], [4, 5]) := by decide +kernel
    obtain ⟨f, hrun, hfacts⟩ := Option.map_eq_some_iff.mp hfacts
    simp only [Prod.mk.injEq, decide_eq_false_iff_not] at hfacts
    obtain ⟨hpending, hshort, hcalls, hwire⟩ := hfacts
    have hwell := wellFormed_of_run hrun
    refine ⟨f, hrun, ?_, hcalls, hwire, ?_⟩
    · rwa [hwell.keepsSend_iff hpending]
    · rw [hwell.keepsSend_iff hpending]
      rintro (hcb | hlong | ⟨hadded, -⟩)
      · cases hcb
      · rw [sendSize_narrowed] at hlong
        exact absurd hlong (by decide)
      · cases hadded
  · have hfacts : (run step (new : StreamFields ℕ)
        [.asyncRecvBytes true ⟨4, by decide⟩ (some 1)]).map (fun f =>
          (f.readPending, decide (f.RecvRefused true ⟨2, by decide⟩ (some 2)))) =
        some (true, false) := by decide +kernel
    obtain ⟨f, hrun, hfacts⟩ := Option.map_eq_some_iff.mp hfacts
    simp only [Prod.mk.injEq, decide_eq_false_iff_not] at hfacts
    obtain ⟨hpending, hshort⟩ := hfacts
    have hwell := wellFormed_of_run hrun
    refine ⟨f, hrun, ?_⟩
    rwa [hwell.keepsRecv_iff hpending]

end StreamFields

end Banana
