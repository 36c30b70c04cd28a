import Banana.MultiThreading.InteractiveTask
import Banana.MultiThreading.WaitFreeConcurrentRingBuffer

/-!
# The wait-free accept path

`notifyNewConnnectMsg` puts a message into the ring of a `NetWorkService` and adds a
token to its `acceptEventFd_`; `onNewConMsg` takes a token and then a message.  A
service is visible to others once it is registered, and `onStart` makes the eventfd
after that, so here a run starts with the registration.

A `read` of an eventfd follows the `write` of its token, and what the writer stored
before is visible behind it; `published` is the value of `head_` it stored last.
-/

namespace Banana.AcceptPath

open Transition WaitFreeConcurrentRingBuffer

structure NewConnectMessage where
  clientFd : ℕ
  deriving DecidableEq

abbrev Buffer := WaitFreeConcurrentRingBuffer.State NewConnectMessage

inductive ProducerPc
  | idle
  | inPut (newConMsg : NewConnectMessage)
  | atWrite (newConMsg : NewConnectMessage)
  deriving DecidableEq

/-- `registered` is before `onStart`, and `atRead` after the event has fired. -/
inductive ServicePc
  | registered
  | atAddEventHandler
  | inLoop
  | atRead
  | inGet
  | atCallback (newConMsg : NewConnectMessage)
  | failed
  deriving DecidableEq

/-- The value that a call returned, and whether it has added a token. -/
structure Return where
  newConMsg : NewConnectMessage
  value : Bool
  token : Bool
  deriving DecidableEq

/-- Before `onStart` the field `acceptEventFd_` is -1, which is no eventfd. -/
structure State where
  newConMsgBuf : Buffer
  acceptEventFd : Option EventFd
  published : ℕ
  producer : ProducerPc
  service : ServicePc
  returns : List Return
  newConnections : List ℕ

inductive Action
  | notifyNewConnnectMsg (newConMsg : NewConnectMessage)
  | put (a : WaitFreeConcurrentRingBuffer.Action NewConnectMessage)
  | write
  | createEventFd
  | addEventHandler
  | onNewConMsg
  | read
  | get (a : WaitFreeConcurrentRingBuffer.Action NewConnectMessage)
  | newConnectionCb

def start (size : ℕ) (buff : ℕ → NewConnectMessage) : State where
  newConMsgBuf := WaitFreeConcurrentRingBuffer.start size buff
  acceptEventFd := none
  published := 0
  producer := .idle
  service := .registered
  returns := []
  newConnections := []

/-- The producer behind a step of its `asyncPut`, which returns when it is idle again. -/
def afterPut (s : State) (newConMsg : NewConnectMessage) (buf : Buffer) : State :=
  match buf.producer, buf.putCalls.getLast? with
  | .idle, some (_, true) => { s with newConMsgBuf := buf, producer := .atWrite newConMsg }
  | .idle, some (_, false) =>
      { s with
        newConMsgBuf := buf
        producer := .idle
        returns := s.returns ++ [⟨newConMsg, false, false⟩] }
  | _, _ => { s with newConMsgBuf := buf }

/-- `write` adds 1 to the counter, and fails with `EBADF` on the descriptor -1. -/
def afterWrite (s : State) (newConMsg : NewConnectMessage) : State :=
  match s.acceptEventFd with
  | some e =>
      { s with
        acceptEventFd := some (e.write 1)
        published := s.newConMsgBuf.memory.headValues.length - 1
        producer := .idle
        returns := s.returns ++ [⟨newConMsg, true, true⟩] }
  | none => { s with producer := .idle, returns := s.returns ++ [⟨newConMsg, true, false⟩] }

/-- The service behind a step of its `asyncGet`, whose result is asserted. -/
def afterGet (s : State) (buf : Buffer) : State :=
  match buf.consumer, buf.getCalls.getLast? with
  | .idle, some (some newConMsg) =>
      { s with newConMsgBuf := buf, service := .atCallback newConMsg }
  | .idle, some none => { s with newConMsgBuf := buf, service := .failed }
  | _, _ => { s with newConMsgBuf := buf }

def step (s : State) : Action → Option State
  | .notifyNewConnnectMsg newConMsg =>
      match s.producer with
      | .idle =>
          (WaitFreeConcurrentRingBuffer.step s.newConMsgBuf (.asyncPut newConMsg)).map fun buf =>
            { s with newConMsgBuf := buf, producer := .inPut newConMsg }
      | _ => none
  | .put a =>
      match s.producer with
      | .inPut newConMsg =>
          if a.isPut then
            (WaitFreeConcurrentRingBuffer.step s.newConMsgBuf a).map (afterPut s newConMsg)
          else none
      | _ => none
  | .write =>
      match s.producer with
      | .atWrite newConMsg => some (afterWrite s newConMsg)
      | _ => none
  | .createEventFd =>
      match s.service with
      | .registered =>
          some { s with acceptEventFd := some .createEventFd, service := .atAddEventHandler }
      | _ => none
  | .addEventHandler =>
      match s.service with
      | .atAddEventHandler => some { s with service := .inLoop }
      | _ => none
  | .onNewConMsg =>
      match s.service, s.acceptEventFd with
      | .inLoop, some e => if 0 < e.counter then some { s with service := .atRead } else none
      | _, _ => none
  | .read =>
      match s.service, s.acceptEventFd.bind EventFd.read with
      | .atRead, some (eventVal, e) =>
          some { s with
            acceptEventFd := some e
            newConMsgBuf.headView := max s.newConMsgBuf.headView s.published
            service := if eventVal = 1 then .inGet else .failed }
      | _, _ => none
  | .get a =>
      match s.service with
      | .inGet =>
          if a.isGet then
            (WaitFreeConcurrentRingBuffer.step s.newConMsgBuf a).map (afterGet s)
          else none
      | _ => none
  | .newConnectionCb =>
      match s.service with
      | .atCallback newConMsg =>
          some { s with
            newConnections := s.newConnections ++ [newConMsg.clientFd]
            service := .atAddEventHandler }
      | _ => none

/-! ## What the path is for -/

def tokens (s : State) : ℕ := s.acceptEventFd.elim 0 EventFd.counter

/-- The messages put into the ring, in order. -/
def stored (s : State) : List NewConnectMessage := storedValues s.newConMsgBuf.putCalls

def handedOut (s : State) : List NewConnectMessage := handedOutValues s.newConMsgBuf.getCalls

/-- The messages in the ring. -/
def buffered (s : State) : List NewConnectMessage := (stored s).drop (handedOut s).length

/-- The messages for which `notifyNewConnnectMsg` has returned true. -/
def accepted (s : State) : List NewConnectMessage :=
  (s.returns.filter Return.value).map Return.newConMsg

/-- No step of the producer or of the handler is in progress. -/
def Quiet (s : State) : Prop :=
  s.producer = .idle ∧
    (s.service = .registered ∨ s.service = .atAddEventHandler ∨ s.service = .inLoop)

/-- Every call that returned true has added its token, and between the calls there is a
token for every message. -/
def Paired (s : State) : Prop :=
  (∀ r ∈ s.returns, r.value = true → r.token = true) ∧
    (Quiet s → tokens s = (buffered s).length)

/-- A `write` finds that `onStart` has made the eventfd. -/
def WriteFindsFd (s : State) : Action → Prop
  | .write => s.acceptEventFd.isSome = true
  | _ => True

instance (s : State) : ∀ a, Decidable (WriteFindsFd s a)
  | .write => inferInstanceAs (Decidable (_ = _))
  | .notifyNewConnnectMsg _ | .put _ | .createEventFd | .addEventHandler | .onNewConMsg | .read
  | .get _ | .newConnectionCb => inferInstanceAs (Decidable True)

/-! ## The account of the tokens -/

def toWrite (s : State) : ℕ :=
  match s.producer with
  | .atWrite _ => 1
  | _ => 0

def toGet (s : State) : ℕ :=
  match s.service with
  | .inGet => 1
  | _ => 0

/-- The calls that returned true without a token. -/
def lost (s : State) : ℕ := s.returns.countP fun r => r.value && !r.token

def ProducerKnows (ring : ProducerPc) (buf : Buffer) (accepted stored : List NewConnectMessage) :
    Prop :=
  match ring with
  | .idle => buf.producer = .idle ∧ accepted = stored
  | .inPut newConMsg => buf.producer.obj = some newConMsg ∧ accepted = stored
  | .atWrite newConMsg => buf.producer = .idle ∧ accepted ++ [newConMsg] = stored

def ServiceKnows (service : ServicePc) (buf : Buffer) (handedOut : List NewConnectMessage)
    (newConnections : List ℕ) : Prop :=
  match service with
  | .inGet =>
      handedOut.length < buf.headView ∧ newConnections = handedOut.map NewConnectMessage.clientFd
  | .atCallback newConMsg =>
      buf.consumer = .idle ∧
        newConnections ++ [newConMsg.clientFd] = handedOut.map NewConnectMessage.clientFd
  | .failed => False
  | _ => buf.consumer = .idle ∧ newConnections = handedOut.map NewConnectMessage.clientFd

structure Inv (size : ℕ) (s : State) : Prop where
  ring : WaitFreeConcurrentRingBuffer.Inv size (stored s) (handedOut s) s.newConMsgBuf
  producer : ProducerKnows s.producer s.newConMsgBuf (accepted s) (stored s)
  service : ServiceKnows s.service s.newConMsgBuf (handedOut s) s.newConnections
  semaphore : ∀ e, s.acceptEventFd = some e → e.semaphore = true
  created : s.acceptEventFd = none ↔ s.service = .registered
  balance : (handedOut s).length + tokens s + toWrite s + toGet s + lost s = (stored s).length
  le_published : (handedOut s).length + tokens s + toGet s ≤ s.published
  published_le : s.published ≤ (stored s).length

theorem inv_start {size : ℕ} (hsize : 1 ≤ size) (buff : ℕ → NewConnectMessage) :
    Inv size (start size buff) where
  ring := WaitFreeConcurrentRingBuffer.inv_start hsize buff
  producer := ⟨rfl, rfl⟩
  service := ⟨rfl, rfl⟩
  semaphore := nofun
  created := iff_of_true rfl rfl
  balance := rfl
  le_published := Nat.le_refl 0
  published_le := Nat.le_refl 0

/-! ## What a step does -/

inductive Moves (s : State) : Action → State → Prop
  | notifies (newConMsg : NewConnectMessage) (buf : Buffer) (hidle : s.producer = .idle)
      (hbuf : WaitFreeConcurrentRingBuffer.step s.newConMsgBuf (.asyncPut newConMsg) = some buf) :
      Moves s (.notifyNewConnnectMsg newConMsg)
        { s with newConMsgBuf := buf, producer := .inPut newConMsg }
  | putGoesOn (a : WaitFreeConcurrentRingBuffer.Action NewConnectMessage)
      (newConMsg : NewConnectMessage) (buf : Buffer) (hat : s.producer = .inPut newConMsg)
      (hbuf : WaitFreeConcurrentRingBuffer.step s.newConMsgBuf a = some buf)
      (hsame : SameConsumer s.newConMsgBuf buf) (hobj : buf.producer.obj = some newConMsg)
      (hcalls : buf.putCalls = s.newConMsgBuf.putCalls) :
      Moves s (.put a) { s with newConMsgBuf := buf }
  | putRefused (a : WaitFreeConcurrentRingBuffer.Action NewConnectMessage)
      (newConMsg : NewConnectMessage) (head : ℕ) (buf : Buffer)
      (hat : s.producer = .inPut newConMsg)
      (hbuf : WaitFreeConcurrentRingBuffer.step s.newConMsgBuf a = some buf)
      (hsame : SameConsumer s.newConMsgBuf buf)
      (hload : s.newConMsgBuf.producer = .atLoadTail newConMsg head)
      (hidle : buf.producer = .idle)
      (hcalls : buf.putCalls = s.newConMsgBuf.putCalls ++ [(newConMsg, false)])
      (hmemory : buf.memory = s.newConMsgBuf.memory) :
      Moves s (.put a)
        { s with
          newConMsgBuf := buf
          producer := .idle
          returns := s.returns ++ [⟨newConMsg, false, false⟩] }
  | putStored (a : WaitFreeConcurrentRingBuffer.Action NewConnectMessage)
      (newConMsg : NewConnectMessage) (buf : Buffer) (hat : s.producer = .inPut newConMsg)
      (hbuf : WaitFreeConcurrentRingBuffer.step s.newConMsgBuf a = some buf)
      (hsame : SameConsumer s.newConMsgBuf buf) (hidle : buf.producer = .idle)
      (hcalls : buf.putCalls = s.newConMsgBuf.putCalls ++ [(newConMsg, true)]) :
      Moves s (.put a) { s with newConMsgBuf := buf, producer := .atWrite newConMsg }
  | writeToken (newConMsg : NewConnectMessage) (e : EventFd)
      (hat : s.producer = .atWrite newConMsg) (hfd : s.acceptEventFd = some e) :
      Moves s .write
        { s with
          acceptEventFd := some (e.write 1)
          published := s.newConMsgBuf.memory.headValues.length - 1
          producer := .idle
          returns := s.returns ++ [⟨newConMsg, true, true⟩] }
  | writeLost (newConMsg : NewConnectMessage) (hat : s.producer = .atWrite newConMsg)
      (hfd : s.acceptEventFd = none) :
      Moves s .write
        { s with producer := .idle, returns := s.returns ++ [⟨newConMsg, true, false⟩] }
  | createEventFd (hat : s.service = .registered) :
      Moves s .createEventFd
        { s with acceptEventFd := some .createEventFd, service := .atAddEventHandler }
  | addEventHandler (hat : s.service = .atAddEventHandler) :
      Moves s .addEventHandler { s with service := .inLoop }
  | onNewConMsg (e : EventFd) (hat : s.service = .inLoop) (hfd : s.acceptEventFd = some e)
      (hpos : 0 < e.counter) : Moves s .onNewConMsg { s with service := .atRead }
  | read (e e' : EventFd) (hat : s.service = .atRead) (hfd : s.acceptEventFd = some e)
      (hcounter : e'.counter + 1 = e.counter) (hsemaphore : e'.semaphore = true) :
      Moves s .read
        { s with
          acceptEventFd := some e'
          newConMsgBuf.headView := max s.newConMsgBuf.headView s.published
          service := .inGet }
  | getGoesOn (a : WaitFreeConcurrentRingBuffer.Action NewConnectMessage) (buf : Buffer)
      (hat : s.service = .inGet)
      (hbuf : WaitFreeConcurrentRingBuffer.step s.newConMsgBuf a = some buf)
      (hsame : SameProducer s.newConMsgBuf buf)
      (hcalls : buf.getCalls = s.newConMsgBuf.getCalls) :
      Moves s (.get a) { s with newConMsgBuf := buf }
  | getReturns (a : WaitFreeConcurrentRingBuffer.Action NewConnectMessage)
      (newConMsg : NewConnectMessage) (buf : Buffer) (hat : s.service = .inGet)
      (hbuf : WaitFreeConcurrentRingBuffer.step s.newConMsgBuf a = some buf)
      (hsame : SameProducer s.newConMsgBuf buf) (hidle : buf.consumer = .idle)
      (hcalls : buf.getCalls = s.newConMsgBuf.getCalls ++ [some newConMsg]) :
      Moves s (.get a) { s with newConMsgBuf := buf, service := .atCallback newConMsg }
  | newConnectionCb (newConMsg : NewConnectMessage) (hat : s.service = .atCallback newConMsg) :
      Moves s .newConnectionCb
        { s with
          newConnections := s.newConnections ++ [newConMsg.clientFd]
          service := .atAddEventHandler }

section Steps

variable {size : ℕ} {s u : State}

theorem Inv.moves_put (hs : Inv size s) {a : WaitFreeConcurrentRingBuffer.Action NewConnectMessage}
    {newConMsg : NewConnectMessage} (hat : s.producer = .inPut newConMsg) (ha : a.isPut = true)
    {buf : Buffer} (hbuf : WaitFreeConcurrentRingBuffer.step s.newConMsgBuf a = some buf) :
    Moves s (.put a) (afterPut s newConMsg buf) := by
  have hproducer := hs.producer
  rw [hat] at hproducer
  obtain ⟨hobj, -⟩ := hproducer
  obtain ⟨hput, hsame⟩ := putStep hbuf ha
  unfold afterPut
  cases hput with
  | goesOn hkept hcalls =>
      have hbusy : buf.producer.obj = some newConMsg := hkept.trans hobj
      cases hpc : buf.producer with
      | idle => simp [hpc, ProducerPc.obj] at hbusy
      | _ => exact .putGoesOn a newConMsg buf hat hbuf hsame hbusy hcalls
  | refuses obj head hload hidle hcalls hmemory =>
      obtain rfl : obj = newConMsg := by
        rw [hload] at hobj
        exact Option.some.inj hobj
      rw [hidle, hcalls, List.getLast?_concat]
      exact .putRefused a obj head buf hat hbuf hsame hload hidle hcalls hmemory
  | stores obj hown hidle hcalls =>
      obtain rfl : obj = newConMsg := Option.some.inj (hown.symm.trans hobj)
      rw [hidle, hcalls, List.getLast?_concat]
      exact .putStored a obj buf hat hbuf hsame hidle hcalls

theorem Inv.moves_get (hs : Inv size s) {a : WaitFreeConcurrentRingBuffer.Action NewConnectMessage}
    (hat : s.service = .inGet) (ha : a.isGet = true)
    {buf : Buffer} (hbuf : WaitFreeConcurrentRingBuffer.step s.newConMsgBuf a = some buf) :
    Moves s (.get a) (afterGet s buf) := by
  have hservice := hs.service
  rw [hat] at hservice
  obtain ⟨hbehind, -⟩ := hservice
  obtain ⟨hget, hsame⟩ := getStep hbuf ha
  unfold afterGet
  cases hget with
  | goesOn hbusy hcalls =>
      cases hpc : buf.consumer with
      | idle => exact absurd hpc hbusy
      | _ => exact .getGoesOn a buf hat hbuf hsame hcalls
  | fails view tail hload hhead hview => exact (hs.ring.head_ne hbehind hload hhead hview).elim
  | returns obj hidle hcalls =>
      rw [hidle, hcalls, List.getLast?_concat]
      exact .getReturns a obj buf hat hbuf hsame hidle hcalls

theorem Inv.moves (hs : Inv size s) {a : Action} (h : step s a = some u) : Moves s a u := by
  cases a with
  | notifyNewConnnectMsg newConMsg =>
      cases hpc : s.producer <;> simp only [step, hpc, reduceCtorEq] at h
      obtain ⟨buf, hbuf, rfl⟩ := Option.map_eq_some_iff.mp h
      exact .notifies newConMsg buf hpc hbuf
  | put a =>
      cases hpc : s.producer <;> simp only [step, hpc, reduceCtorEq] at h
      split_ifs at h with ha
      obtain ⟨buf, hbuf, rfl⟩ := Option.map_eq_some_iff.mp h
      exact hs.moves_put hpc ha hbuf
  | write =>
      cases hpc : s.producer <;> simp only [step, hpc, reduceCtorEq, Option.some.injEq] at h
      subst h
      unfold afterWrite
      cases hfd : s.acceptEventFd with
      | none => simpa only [hfd] using Moves.writeLost _ hpc hfd
      | some e => simpa only [hfd] using Moves.writeToken _ e hpc hfd
  | createEventFd =>
      cases hpc : s.service <;> simp only [step, hpc, reduceCtorEq, Option.some.injEq] at h
      exact h ▸ .createEventFd hpc
  | addEventHandler =>
      cases hpc : s.service <;> simp only [step, hpc, reduceCtorEq, Option.some.injEq] at h
      exact h ▸ .addEventHandler hpc
  | onNewConMsg =>
      cases hpc : s.service <;> cases hfd : s.acceptEventFd <;>
        simp only [step, hpc, hfd, reduceCtorEq] at h
      split_ifs at h with hpos
      rw [← Option.some.inj h]
      simpa only [hfd] using Moves.onNewConMsg _ hpc hfd hpos
  | read =>
      cases hpc : s.service <;> cases hread : s.acceptEventFd.bind EventFd.read <;>
        simp only [step, hpc, hread, reduceCtorEq, Option.some.injEq] at h
      obtain ⟨e, hfd, hread⟩ := Option.bind_eq_some_iff.mp hread
      obtain ⟨hone, hcounter, hsemaphore⟩ := EventFd.read_semaphore (hs.semaphore e hfd) hread
      rw [if_pos hone] at h
      exact h ▸ .read e _ hpc hfd hcounter hsemaphore
  | get a =>
      cases hpc : s.service <;> simp only [step, hpc, reduceCtorEq] at h
      split_ifs at h with ha
      obtain ⟨buf, hbuf, rfl⟩ := Option.map_eq_some_iff.mp h
      exact hs.moves_get hpc ha hbuf
  | newConnectionCb =>
      cases hpc : s.service <;> simp only [step, hpc, reduceCtorEq, Option.some.injEq] at h
      exact h ▸ .newConnectionCb _ hpc

theorem accepted_concat (returns : List Return) (r : Return) :
    ((returns ++ [r]).filter Return.value).map Return.newConMsg =
      (returns.filter Return.value).map Return.newConMsg ++
        if r.value then [r.newConMsg] else [] := by
  rw [List.filter_append, List.map_append]
  cases hvalue : r.value <;> simp [hvalue]

theorem lost_concat (returns : List Return) (r : Return) :
    (returns ++ [r]).countP (fun r => r.value && !r.token) =
      returns.countP (fun r => r.value && !r.token) +
        if r.value = true ∧ r.token = false then 1 else 0 := by
  rw [List.countP_append, List.countP_singleton]
  cases r.value <;> cases r.token <;> rfl

theorem Inv.published_eq (hs : Inv size s) :
    s.newConMsgBuf.memory.headValues.length - 1 = (stored s).length := by
  rw [hs.ring.headValues, CyclicIndex.trail, List.length_map, List.length_range]
  rfl

theorem ServiceKnows.of_sameConsumer {service : ServicePc} {buf buf' : Buffer}
    {taken : List NewConnectMessage} {connections : List ℕ}
    (h : ServiceKnows service buf taken connections) (hsame : SameConsumer buf buf') :
    ServiceKnows service buf' taken connections := by
  cases service with
  | inGet => exact ⟨hsame.headView ▸ h.1, h.2⟩
  | failed => exact h
  | _ => exact ⟨hsame.consumer.trans h.1, h.2⟩

theorem ProducerKnows.of_producer_eq {producer : ProducerPc} {buf buf' : Buffer}
    {returned put : List NewConnectMessage} (h : ProducerKnows producer buf returned put)
    (hsame : buf'.producer = buf.producer) : ProducerKnows producer buf' returned put := by
  cases producer with
  | inPut => exact ⟨hsame ▸ h.1, h.2⟩
  | _ => exact ⟨hsame.trans h.1, h.2⟩

/-- A step of the producer in the ring: what it does to its call and to the account is
left to the case. -/
theorem Inv.of_put (hs : Inv size s) {a : WaitFreeConcurrentRingBuffer.Action NewConnectMessage}
    (hbuf : WaitFreeConcurrentRingBuffer.step s.newConMsgBuf a = some u.newConMsgBuf)
    (hsame : SameConsumer s.newConMsgBuf u.newConMsgBuf)
    (hfd : u.acceptEventFd = s.acceptEventFd) (hpublished : u.published = s.published)
    (hservice : u.service = s.service) (hnew : u.newConnections = s.newConnections)
    (hproducer : ProducerKnows u.producer u.newConMsgBuf (accepted u) (stored u))
    (hbalance : toWrite u + lost u + (stored s).length =
      toWrite s + lost s + (stored u).length) (hgrows : (stored s).length ≤ (stored u).length) :
    Inv size u := by
  have hhanded : handedOut u = handedOut s := by
    rw [handedOut, hsame.getCalls]
    rfl
  have htokens : tokens u = tokens s := by
    rw [tokens, hfd]
    rfl
  have hget : toGet u = toGet s := by
    rw [toGet, hservice]
    rfl
  have hold := hs.balance
  refine ⟨hs.ring.step hbuf, hproducer, ?_, ?_, ?_, ?_, ?_, ?_⟩
  · rw [hservice, hnew, hhanded]
    exact hs.service.of_sameConsumer hsame
  · rw [hfd]
    exact hs.semaphore
  · rw [hfd, hservice]
    exact hs.created
  · rw [hhanded, htokens, hget]
    omega
  · rw [hhanded, htokens, hget, hpublished]
    exact hs.le_published
  · rw [hpublished]
    exact Nat.le_trans hs.published_le hgrows

/-- A step of the service in the ring. -/
theorem Inv.of_get (hs : Inv size s) {a : WaitFreeConcurrentRingBuffer.Action NewConnectMessage}
    (hbuf : WaitFreeConcurrentRingBuffer.step s.newConMsgBuf a = some u.newConMsgBuf)
    (hsame : SameProducer s.newConMsgBuf u.newConMsgBuf)
    (hfd : u.acceptEventFd = s.acceptEventFd) (hpublished : u.published = s.published)
    (hproducer : u.producer = s.producer) (hreturns : u.returns = s.returns)
    (hservice : ServiceKnows u.service u.newConMsgBuf (handedOut u) u.newConnections)
    (hcreated : u.service ≠ .registered) (hwas : s.service ≠ .registered)
    (hbalance : (handedOut u).length + toGet u = (handedOut s).length + toGet s) :
    Inv size u := by
  have hstored : stored u = stored s := by
    rw [stored, hsame.putCalls]
    rfl
  have htokens : tokens u = tokens s := by
    rw [tokens, hfd]
    rfl
  have hwrite : toWrite u = toWrite s := by
    rw [toWrite, hproducer]
    rfl
  have haccepted : accepted u = accepted s := by
    rw [accepted, hreturns]
    rfl
  have hlost : lost u = lost s := by
    rw [lost, hreturns]
    rfl
  have hold := hs.balance
  have hle := hs.le_published
  refine ⟨hs.ring.step hbuf, ?_, hservice, ?_, ?_, ?_, ?_, ?_⟩
  · rw [hproducer, haccepted, hstored]
    exact hs.producer.of_producer_eq hsame.producer
  · rw [hfd]
    exact hs.semaphore
  · rw [hfd]
    exact iff_of_false (fun hnone => hwas (hs.created.mp hnone)) hcreated
  · rw [htokens, hwrite, hlost, hstored]
    omega
  · rw [htokens, hpublished]
    omega
  · rw [hpublished, hstored]
    exact hs.published_le

/-- The first step of a call leaves the memory of the ring alone. -/
theorem Inv.notifies (hs : Inv size s) {newConMsg : NewConnectMessage} {buf : Buffer}
    (hidle : s.producer = .idle)
    (hbuf : WaitFreeConcurrentRingBuffer.step s.newConMsgBuf (.asyncPut newConMsg) = some buf) :
    Inv size { s with newConMsgBuf := buf, producer := .inPut newConMsg } ∧
      buf.memory = s.newConMsgBuf.memory := by
  have hproducer := hs.producer
  rw [hidle] at hproducer
  cases moves_of_step hbuf with
  | asyncPut obj head hpc hhead =>
      refine ⟨hs.of_put hbuf ⟨rfl, rfl, rfl⟩ rfl rfl rfl rfl ⟨rfl, hproducer.2⟩ ?_
        (Nat.le_refl _), rfl⟩
      simp [toWrite, hidle, lost, stored]

theorem Inv.not_registered (hs : Inv size s) {e : EventFd} (hfd : s.acceptEventFd = some e) :
    s.service ≠ .registered := fun hat => by
  have hnone := hs.created.mpr hat
  simp [hfd] at hnone

/-- The service moves on, and neither the ring nor the eventfd changes. -/
theorem Inv.of_service (hs : Inv size s) {service : ServicePc} {connections : List ℕ}
    (hwas : s.service ≠ .registered) (hnot : service ≠ .registered)
    (hget : toGet { s with service := service } = toGet s)
    (hservice : ServiceKnows service s.newConMsgBuf (handedOut s) connections) :
    Inv size { s with service := service, newConnections := connections } := by
  refine ⟨hs.ring, hs.producer, hservice, hs.semaphore, ?_, ?_, ?_, hs.published_le⟩
  · exact iff_of_false (fun hnone => hwas (hs.created.mp hnone)) hnot
  · change (handedOut s).length + tokens s + toWrite s + toGet { s with service := service } +
      lost s = (stored s).length
    rw [hget]
    exact hs.balance
  · change (handedOut s).length + tokens s + toGet { s with service := service } ≤ s.published
    rw [hget]
    exact hs.le_published

theorem Inv.writeToken (hs : Inv size s) {newConMsg : NewConnectMessage} {e : EventFd}
    (hat : s.producer = .atWrite newConMsg) (hfd : s.acceptEventFd = some e) :
    Inv size
      { s with
        acceptEventFd := some (e.write 1)
        published := s.newConMsgBuf.memory.headValues.length - 1
        producer := .idle
        returns := s.returns ++ [⟨newConMsg, true, true⟩] } := by
  have hproducer := hs.producer
  have hbalance := hs.balance
  rw [hat] at hproducer
  rw [toWrite, hat, tokens, hfd] at hbalance
  change (handedOut s).length + e.counter + 1 + toGet s + lost s = _ at hbalance
  refine ⟨hs.ring, ⟨hproducer.1, ?_⟩, hs.service, ?_, ?_, ?_, ?_, ?_⟩
  · exact (accepted_concat _ _).trans hproducer.2
  · rintro e' he'
    rw [← Option.some.inj he']
    exact hs.semaphore e hfd
  · exact iff_of_false nofun (hs.not_registered hfd)
  · change (handedOut s).length + (e.counter + 1) + 0 + toGet s + List.countP _ _ = _
    rw [lost_concat, if_neg nofun]
    change _ + (lost s + 0) = (stored s).length
    omega
  · change (handedOut s).length + (e.counter + 1) + toGet s ≤ _
    rw [hs.published_eq]
    change _ ≤ (stored s).length
    omega
  · exact Nat.le_of_eq hs.published_eq

theorem Inv.writeLost (hs : Inv size s) {newConMsg : NewConnectMessage}
    (hat : s.producer = .atWrite newConMsg) :
    Inv size
      { s with producer := .idle, returns := s.returns ++ [⟨newConMsg, true, false⟩] } := by
  have hproducer := hs.producer
  have hbalance := hs.balance
  rw [hat] at hproducer
  rw [toWrite, hat] at hbalance
  change (handedOut s).length + tokens s + 1 + toGet s + lost s = _ at hbalance
  refine ⟨hs.ring, ⟨hproducer.1, ?_⟩, hs.service, hs.semaphore, hs.created, ?_,
    hs.le_published, hs.published_le⟩
  · exact (accepted_concat _ _).trans hproducer.2
  · change (handedOut s).length + tokens s + 0 + toGet s + List.countP _ _ = _
    rw [lost_concat, if_pos ⟨rfl, rfl⟩]
    change _ + (lost s + 1) = (stored s).length
    omega

theorem Inv.createEventFd (hs : Inv size s) (hat : s.service = .registered) :
    Inv size
      { s with acceptEventFd := some .createEventFd, service := .atAddEventHandler } := by
  have hservice := hs.service
  have hbalance := hs.balance
  have hle := hs.le_published
  rw [hat] at hservice
  rw [tokens, hs.created.mpr hat, toGet, hat] at hbalance hle
  refine ⟨hs.ring, hs.producer, hservice, ?_, iff_of_false nofun nofun, hbalance, hle,
    hs.published_le⟩
  rintro e he
  rw [← Option.some.inj he]
  rfl

/-- The service has seen what was stored before the last token. -/
theorem Inv.read (hs : Inv size s) {e e' : EventFd} (hat : s.service = .atRead)
    (hfd : s.acceptEventFd = some e) (hcounter : e'.counter + 1 = e.counter)
    (hsemaphore : e'.semaphore = true) :
    Inv size
      { s with
        acceptEventFd := some e'
        newConMsgBuf.headView := max s.newConMsgBuf.headView s.published
        service := .inGet } := by
  have hservice := hs.service
  have hbalance := hs.balance
  have hle := hs.le_published
  rw [hat] at hservice
  rw [tokens, hfd, toGet, hat] at hbalance hle
  change (handedOut s).length + e.counter + toWrite s + 0 + lost s = _ at hbalance
  change (handedOut s).length + e.counter + 0 ≤ _ at hle
  refine ⟨hs.ring.raise_headView hservice.1 hs.published_le,
    hs.producer.of_producer_eq rfl, ⟨?_, hservice.2⟩, ?_, iff_of_false nofun nofun, ?_, ?_,
    hs.published_le⟩
  · change (handedOut s).length < max s.newConMsgBuf.headView s.published
    omega
  · rintro e'' he''
    exact Option.some.inj he'' ▸ hsemaphore
  · change (handedOut s).length + e'.counter + toWrite s + 1 + lost s = (stored s).length
    omega
  · change (handedOut s).length + e'.counter + 1 ≤ s.published
    omega

theorem Inv.step (hs : Inv size s) {a : Action} (h : AcceptPath.step s a = some u) :
    Inv size u := by
  have hproducer := hs.producer
  have hservice := hs.service
  cases hs.moves h with
  | notifies newConMsg buf hidle hbuf => exact (hs.notifies hidle hbuf).1
  | putGoesOn a newConMsg buf hat hbuf hsame hobj hcalls =>
      rw [hat] at hproducer
      have hstored : storedValues buf.putCalls = stored s := congrArg storedValues hcalls
      have hlen := congrArg List.length hstored
      refine hs.of_put hbuf hsame rfl rfl rfl rfl ?_ ?_ (Nat.le_of_eq hlen.symm)
      · change ProducerKnows s.producer buf (accepted s) (storedValues buf.putCalls)
        rw [hat, hstored]
        exact ⟨hobj, hproducer.2⟩
      · exact congrArg (toWrite s + lost s + ·) hlen.symm
  | putRefused a newConMsg head buf hat hbuf hsame hload hidle hcalls hmemory =>
      rw [hat] at hproducer
      have hstored : storedValues buf.putCalls = stored s := by
        rw [hcalls, storedValues_snoc_false]
        rfl
      have hlen := congrArg List.length hstored
      have hwrite : toWrite s = 0 := by rw [toWrite, hat]
      refine hs.of_put hbuf hsame rfl rfl rfl rfl ⟨hidle, ?_⟩ ?_ (Nat.le_of_eq hlen.symm)
      · refine ((accepted_concat _ _).trans ?_).trans hstored.symm
        exact (List.append_nil _).trans hproducer.2
      · change 0 + List.countP _ _ + _ = _ + (storedValues buf.putCalls).length
        rw [lost_concat, if_neg nofun, hlen, hwrite]
        rfl
  | putStored a newConMsg buf hat hbuf hsame hidle hcalls =>
      rw [hat] at hproducer
      have hstored : storedValues buf.putCalls = stored s ++ [newConMsg] := by
        rw [hcalls, storedValues_snoc_true]
        rfl
      have hlen : (storedValues buf.putCalls).length = (stored s).length + 1 := by
        rw [hstored, List.length_append]
        rfl
      have hwrite : toWrite s = 0 := by rw [toWrite, hat]
      refine hs.of_put hbuf hsame rfl rfl rfl rfl ⟨hidle, ?_⟩ ?_ ?_
      · exact (congrArg (· ++ [newConMsg]) hproducer.2).trans hstored.symm
      · change 1 + lost s + (stored s).length = _ + (storedValues buf.putCalls).length
        omega
      · exact Nat.le_trans (Nat.le_succ _) (Nat.le_of_eq hlen.symm)
  | writeToken newConMsg e hat hfd => exact hs.writeToken hat hfd
  | writeLost newConMsg hat hfd => exact hs.writeLost hat
  | createEventFd hat => exact hs.createEventFd hat
  | addEventHandler hat =>
      rw [hat] at hservice
      exact hs.of_service (by simp [hat]) nofun (by rw [toGet, toGet, hat]) hservice
  | onNewConMsg e hat hfd hpos =>
      rw [hat] at hservice
      exact hs.of_service (by simp [hat]) nofun (by rw [toGet, toGet, hat]) hservice
  | read e e' hat hfd hcounter hsemaphore => exact hs.read hat hfd hcounter hsemaphore
  | getGoesOn a buf hat hbuf hsame hcalls =>
      rw [hat] at hservice
      have hhanded : handedOutValues buf.getCalls = handedOut s :=
        congrArg handedOutValues hcalls
      refine hs.of_get hbuf hsame rfl rfl rfl rfl ?_ (by simp [hat]) (by simp [hat]) ?_
      · change ServiceKnows s.service buf (handedOutValues buf.getCalls) s.newConnections
        rw [hat, hhanded]
        exact ⟨Nat.lt_of_lt_of_le hservice.1 hsame.headView_le, hservice.2⟩
      · exact congrArg (List.length · + toGet s) hhanded
  | getReturns a newConMsg buf hat hbuf hsame hidle hcalls =>
      rw [hat] at hservice
      have hhanded : handedOutValues buf.getCalls = handedOut s ++ [newConMsg] := by
        rw [hcalls, handedOutValues_snoc_some]
        rfl
      have hget : toGet s = 1 := by rw [toGet, hat]
      refine hs.of_get hbuf hsame rfl rfl rfl rfl ⟨hidle, ?_⟩ nofun (by simp [hat]) ?_
      · change _ = (handedOutValues buf.getCalls).map NewConnectMessage.clientFd
        rw [hhanded, List.map_append, ← hservice.2]
        rfl
      · change (handedOutValues buf.getCalls).length + 0 = _
        rw [hhanded, List.length_append, hget]
        rfl
  | newConnectionCb newConMsg hat =>
      rw [hat] at hservice
      exact hs.of_service (by simp [hat]) nofun (by rw [toGet, toGet, hat]) hservice

/-- Only a `write` that finds no eventfd loses its token. -/
theorem Inv.lost_step (hs : Inv size s) {a : Action} (h : AcceptPath.step s a = some u) :
    (WriteFindsFd s a → lost u = lost s) ∧ (¬ WriteFindsFd s a → lost u = lost s + 1) := by
  cases hs.moves h with
  | putRefused a newConMsg =>
      refine ⟨fun _ => ?_, fun hnot => absurd trivial hnot⟩
      exact (lost_concat s.returns ⟨newConMsg, false, false⟩).trans (by simp [lost])
  | writeToken newConMsg e hat hfd =>
      refine ⟨fun _ => ?_, fun hnot => absurd ?_ hnot⟩
      · exact (lost_concat s.returns ⟨newConMsg, true, true⟩).trans (by simp [lost])
      · change s.acceptEventFd.isSome = true
        rw [hfd]
        rfl
  | writeLost newConMsg hat hfd =>
      refine ⟨fun hfinds => ?_, fun _ => ?_⟩
      · change s.acceptEventFd.isSome = true at hfinds
        simp [hfd] at hfinds
      · exact (lost_concat s.returns ⟨newConMsg, true, false⟩).trans (by simp [lost])
  | _ => exact ⟨fun _ => rfl, fun hnot => absurd trivial hnot⟩

/-- The length of what is in the ring. -/
theorem Inv.length_buffered (hs : Inv size s) :
    (buffered s).length = tokens s + toWrite s + toGet s + lost s := by
  have hbalance := hs.balance
  rw [buffered, List.length_drop]
  omega

theorem toWrite_of_quiet (hquiet : Quiet s) : toWrite s = 0 := by
  rw [toWrite, hquiet.1]

theorem toGet_of_quiet (hquiet : Quiet s) : toGet s = 0 := by
  rcases hquiet.2 with hat | hat | hat <;> rw [toGet, hat]

theorem lost_eq_zero_iff : lost s = 0 ↔ ∀ r ∈ s.returns, r.value = true → r.token = true := by
  rw [lost, List.countP_eq_zero]
  refine forall₂_congr fun r _ => ?_
  cases r.value <;> cases r.token <;> simp

theorem Inv.paired_iff (hs : Inv size s) : lost s = 0 ↔ Paired s := by
  refine ⟨fun hlost => ⟨lost_eq_zero_iff.mp hlost, fun hquiet => ?_⟩,
    fun hpaired => lost_eq_zero_iff.mpr hpaired.1⟩
  rw [hs.length_buffered, toWrite_of_quiet hquiet, toGet_of_quiet hquiet, hlost]
  rfl

/-- Between the calls, every message accepted was given to `newConnectionCb_` or is in
the ring. -/
theorem Inv.newConnections_append (hs : Inv size s) (hquiet : Quiet s) :
    s.newConnections ++ (buffered s).map NewConnectMessage.clientFd =
      (accepted s).map NewConnectMessage.clientFd := by
  have hproducer := hs.producer
  have hservice := hs.service
  rw [hquiet.1] at hproducer
  have hgiven : s.newConnections = (handedOut s).map NewConnectMessage.clientFd := by
    rcases hquiet.2 with hat | hat | hat
    · rw [hat] at hservice
      exact hservice.2
    · rw [hat] at hservice
      exact hservice.2
    · rw [hat] at hservice
      exact hservice.2
  have hsplit := List.take_append_drop (handedOut s).length (stored s)
  rw [← hs.ring.fifo] at hsplit
  rw [hgiven, ← List.map_append, hproducer.2, buffered, hsplit]

/-- A call that returns false has only loaded the indices. -/
theorem Inv.refused (hs : Inv size s) {a : Action} (h : AcceptPath.step s a = some u)
    {newConMsg : NewConnectMessage} {token : Bool}
    (hreturns : u.returns = s.returns ++ [⟨newConMsg, false, token⟩]) :
    (∃ head, s.newConMsgBuf.producer = .atLoadTail newConMsg head) ∧
      u.newConMsgBuf.memory = s.newConMsgBuf.memory ∧ u.acceptEventFd = s.acceptEventFd := by
  cases hs.moves h with
  | putRefused a newConMsg' head buf hat hbuf hsame hload hidle hcalls hmemory =>
      obtain ⟨rfl, -⟩ : newConMsg' = newConMsg ∧ false = token := by simpa using hreturns
      exact ⟨⟨head, hload⟩, hmemory, rfl⟩
  | writeToken => simp at hreturns
  | writeLost => simp at hreturns
  | _ => exact absurd hreturns (by simp)

/-- When every message has its token and no event can fire, everything was handed on. -/
theorem Inv.handed_on (hs : Inv size s) (hlost : lost s = 0) (hidle : s.producer = .idle)
    (hat : s.service = .inLoop) (hrest : AcceptPath.step s .onNewConMsg = none) :
    s.newConnections = (accepted s).map NewConnectMessage.clientFd := by
  have hquiet : Quiet s := ⟨hidle, .inr (.inr hat)⟩
  have hempty : tokens s = 0 := by
    cases hfd : s.acceptEventFd with
    | none => rw [tokens, hfd, Option.elim_none]
    | some e =>
        simp only [AcceptPath.step, hat, hfd] at hrest
        split_ifs at hrest with hpos
        rw [tokens, hfd, Option.elim_some]
        omega
  have hbuffered : buffered s = [] := by
    rw [← List.length_eq_zero_iff, ← (hs.paired_iff.mp hlost).2 hquiet, hempty]
  have happend := hs.newConnections_append hquiet
  rwa [hbuffered, List.map_nil, List.append_nil] at happend

end Steps

/-- In a run of one producer and one service, from the registration on, `asyncGet` in the
handler never fails, there are no more tokens than messages, a call that returns false
changes nothing, and what has been accepted was handed on in order or is in the ring.
And every message accepted has its token at all times exactly when every `write` finds
the eventfd that `onStart` makes. -/
theorem paired_iff_writeFindsFd {size : ℕ} (hsize : 1 ≤ size) (buff : ℕ → NewConnectMessage)
    {as : List Action} {s : State} (hrun : run step (start size buff) as = some s) :
    s.service ≠ .failed ∧ tokens s ≤ (buffered s).length ∧
      (∀ newConMsg u, step s (.notifyNewConnnectMsg newConMsg) = some u →
        u.newConMsgBuf.memory = s.newConMsgBuf.memory ∧ u.acceptEventFd = s.acceptEventFd) ∧
      (∀ a u newConMsg token, step s a = some u →
        u.returns = s.returns ++ [⟨newConMsg, false, token⟩] →
          (∃ head, s.newConMsgBuf.producer = .atLoadTail newConMsg head) ∧
          u.newConMsgBuf.memory = s.newConMsgBuf.memory ∧ u.acceptEventFd = s.acceptEventFd) ∧
      (Quiet s → s.newConnections ++ (buffered s).map NewConnectMessage.clientFd =
        (accepted s).map NewConnectMessage.clientFd) ∧
      (Along WriteFindsFd step (start size buff) as ↔
        ∀ bs t, bs <+: as → run step (start size buff) bs = some t → Paired t) ∧
      (Along WriteFindsFd step (start size buff) as → s.producer = .idle →
        s.service = .inLoop → step s .onNewConMsg = none →
          s.newConnections = (accepted s).map NewConnectMessage.clientFd) := by
  have hI : ∀ (t : State) a v, Inv size t → step t a = some v → Inv size v :=
    fun t a v ht h => ht.step h
  have hs : Inv size s := run_invariant hI (inv_start hsize buff) hrun
  have hiff := along_iff_forall_prefix (P := WriteFindsFd) (G := fun t => lost t = 0) hI ?_
    (inv_start hsize buff) rfl hrun
  · refine ⟨?_, ?_, fun newConMsg u h => ?_, fun a u newConMsg token h => hs.refused h,
      hs.newConnections_append, ?_, fun hal => ?_⟩
    · intro hfailed
      have hservice := hs.service
      rw [hfailed] at hservice
      exact hservice
    · rw [hs.length_buffered]
      omega
    · cases hs.moves h with
      | notifies _ buf hidle hbuf => exact ⟨(hs.notifies hidle hbuf).2, rfl⟩
    · rw [hiff]
      refine forall₄_congr fun bs t _ ht => ?_
      exact (run_invariant hI (inv_start hsize buff) ht).paired_iff
    · exact hs.handed_on (hiff.mp hal as s (List.prefix_refl as) hrun)
  · intro t a v ht hlost h
    have hstep := ht.lost_step h
    by_cases hfinds : WriteFindsFd t a
    · exact iff_of_true hfinds ((hstep.1 hfinds).trans hlost)
    · refine iff_of_false hfinds fun hzero => ?_
      rw [hstep.2 hfinds] at hzero
      exact Nat.succ_ne_zero _ hzero

/-- A call after `onStart` has made the eventfd, and the handler. -/
def afterStart : List Action :=
  [.createEventFd, .notifyNewConnnectMsg ⟨7⟩, .put (.loadTail 0), .addEventHandler, .put .write,
    .put .storeHead, .write, .onNewConMsg, .read, .get .asyncGet, .get (.loadHead 1),
    .get .read, .get .storeTail, .newConnectionCb, .addEventHandler]

/-- A call between the registration and `onStart`. -/
def beforeStart : List Action :=
  [.notifyNewConnnectMsg ⟨7⟩, .put (.loadTail 0), .put .write, .put .storeHead, .write,
    .createEventFd, .addEventHandler]

theorem paired_iff_writeFindsFd_afterStart :
    ∃ s, run step (start 50000 fun _ => ⟨0⟩) afterStart = some s ∧ Paired s ∧
      s.newConnections = [7] := by
  obtain ⟨s, hrun, hidle, hat, hrest, haccepted⟩ :
      ∃ s, run step (start 50000 fun _ => ⟨0⟩) afterStart = some s ∧ s.producer = .idle ∧
        s.service = .inLoop ∧ step s .onNewConMsg = none ∧ accepted s = [⟨7⟩] :=
    ⟨_, rfl, rfl, rfl, rfl, rfl⟩
  have hal : Along WriteFindsFd step (start 50000 fun _ => ⟨0⟩) afterStart := by decide
  obtain ⟨-, -, -, -, -, hiff, hall⟩ :=
    paired_iff_writeFindsFd (by decide : 1 ≤ 50000) (fun _ => ⟨0⟩) hrun
  refine ⟨s, hrun, hiff.mp hal afterStart s (List.prefix_refl _) hrun, ?_⟩
  rw [hall hal hidle hat hrest, haccepted]
  rfl

/-- The call returns true, its message stays in the ring, and no event ever fires. -/
theorem not_paired_beforeStart :
    ∃ s, run step (start 50000 fun _ => ⟨0⟩) beforeStart = some s ∧
      s.returns = [⟨⟨7⟩, true, false⟩] ∧ buffered s = [⟨7⟩] ∧ tokens s = 0 ∧
      step s .onNewConMsg = none ∧ ¬ Paired s := by
  refine ⟨_, rfl, rfl, rfl, rfl, rfl, ?_⟩
  rintro ⟨htoken, -⟩
  exact absurd (htoken ⟨⟨7⟩, true, false⟩ List.mem_cons_self rfl) nofun

end Banana.AcceptPath
