import Banana.MultiThreading.ConcurrentRingBuffer
import Mathlib.Data.Fintype.Option

/-!
# The mailbox of an InteractiveTask

A running task owns a queue and an eventfd.  `notifyMsg` puts a message into
the queue and then writes 1 to the eventfd; the task's thread reads the
eventfd, gets one message and calls `onMessage`, which may itself call
`notifyMsg` on the same task.  With a reactor the reader is a one-shot read
handler that re-arms itself at the end; without one it is a loop around a
blocking read.

A `syncPut` on a full queue is a step that is not enabled: spurious wake-ups
let a blocked thread re-test at any time, so sleeping adds no state here.
-/

namespace Banana

open Threads

/-- The kernel object behind an eventfd. -/
structure EventFd where
  counter : ℕ
  semaphore : Bool

namespace EventFd

def createEventFd : EventFd := ⟨0, true⟩

/-- A read blocks at zero.  It takes one off a semaphore and returns 1, and
empties any other counter and returns it. -/
def read (e : EventFd) : Option (ℕ × EventFd) :=
  if e.counter = 0 then none
  else if e.semaphore then some (1, { e with counter := e.counter - 1 })
  else some (e.counter, { e with counter := 0 })

def write (e : EventFd) (val : ℕ) : EventFd := { e with counter := e.counter + val }

theorem read_semaphore {e e' : EventFd} {v : ℕ} (he : e.semaphore = true)
    (h : e.read = some (v, e')) : v = 1 ∧ e'.counter + 1 = e.counter ∧ e'.semaphore = true := by
  by_cases hzero : e.counter = 0
  · simp [read, hzero] at h
  · obtain ⟨rfl, rfl⟩ : 1 = v ∧ { e with counter := e.counter - 1 } = e' := by
      simpa [read, hzero, he] using h
    refine ⟨rfl, ?_, he⟩
    change e.counter - 1 + 1 = e.counter
    omega

theorem read_isSome {e : EventFd} (hpos : 0 < e.counter) : e.read.isSome := by
  unfold read
  split_ifs <;> simp_all

end EventFd

namespace InteractiveTask

variable {M τ : Type*}

inductive SenderPc (M : Type*)
  | idle
  | atSyncPut (spMessage : M)
  | atWrite

@[simp] def SenderPc.isAtWrite : SenderPc M → Bool
  | .atWrite => true
  | _ => false

/-- Where the task's thread is: in the loop, in `__onMessage` before the read,
before `syncGet` with the value read, or in `onMessage`. -/
inductive ReceiverPc (M : Type*)
  | inLoop
  | atRead
  | atSyncGet (eventVal : ℕ)
  | inOnMessage (message : M)

@[simp] def ReceiverPc.isAtSyncGet : ReceiverPc M → Bool
  | .atSyncGet _ => true
  | _ => false

/-- A registered, running task.  Sender `none` is the task's own thread.  The
logs are the messages of the completed `syncPut`s and of the calls of
`onMessage`, in order. -/
structure Mailbox (M τ : Type*) where
  hasReactor : Bool
  recvMsgQueue : ConcurrentRingBuffer M
  eventFd : EventFd
  armed : Bool
  sender : Option τ → SenderPc M
  receiver : ReceiverPc M
  putLog : List M
  handledLog : List M

inductive Action (M τ : Type*)
  | notifyMsg (t : Option τ) (spMessage : M)
  | syncPut (t : Option τ)
  | write (t : Option τ)
  | fire
  | read
  | syncGet
  | finish

/-- `start()` up to the loop: the eventfd is created, the handler is armed, the
task is registered. -/
def start (hasReactor : Bool) (size : ℕ) (buff : ℕ → M) : Mailbox M τ where
  hasReactor := hasReactor
  recvMsgQueue := .new size buff
  eventFd := .createEventFd
  armed := hasReactor
  sender := fun _ => .idle
  receiver := .inLoop
  putLog := []
  handledLog := []

/-- The task's own thread sends from `onStart`, from another event handler of
its reactor or from `onMessage`. -/
def maySend (s : Mailbox M τ) : Option τ → Bool
  | some _ => true
  | none =>
      match s.receiver with
      | .inLoop => true
      | .inOnMessage _ => true
      | _ => false

def readEventFd (s : Mailbox M τ) : Option (Mailbox M τ) :=
  s.eventFd.read.map fun r => { s with eventFd := r.2, receiver := .atSyncGet r.1 }

section Steps

variable [DecidableEq τ]

def step (s : Mailbox M τ) : Action M τ → Option (Mailbox M τ)
  | .notifyMsg t msg =>
      match s.sender t with
      | .idle =>
          if maySend s t then
            some { s with sender := Function.update s.sender t (.atSyncPut msg) }
          else none
      | _ => none
  | .syncPut t =>
      match s.sender t with
      | .atSyncPut msg =>
          match ConcurrentRingBuffer.syncPut msg s.recvMsgQueue with
          | .wait _ => none
          | .finish queue _ _ =>
              some { s with
                recvMsgQueue := queue
                sender := Function.update s.sender t .atWrite
                putLog := s.putLog ++ [msg] }
      | _ => none
  | .write t =>
      match s.sender t with
      | .atWrite =>
          some { s with
            eventFd := s.eventFd.write 1
            sender := Function.update s.sender t .idle }
      | _ => none
  | .fire =>
      match s.receiver, s.sender none with
      | .inLoop, .idle =>
          if s.armed = true ∧ 0 < s.eventFd.counter then
            some { s with armed := false, receiver := .atRead }
          else none
      | _, _ => none
  | .read =>
      match s.receiver, s.sender none with
      | .atRead, .idle => readEventFd s
      | .inLoop, .idle => if s.hasReactor then none else readEventFd s
      | _, _ => none
  | .syncGet =>
      match s.receiver with
      | .atSyncGet eventVal =>
          -- `assert(eventVal == 1)`
          if eventVal = 1 then
            match ConcurrentRingBuffer.syncGet s.recvMsgQueue with
            | .finish queue (.returnTrue msg) _ =>
                some { s with
                  recvMsgQueue := queue
                  receiver := .inOnMessage msg
                  handledLog := s.handledLog ++ [msg] }
            | _ => none
          else none
      | _ => none
  | .finish =>
      match s.receiver, s.sender none with
      | .inOnMessage _, .idle => some { s with receiver := .inLoop, armed := s.hasReactor }
      | _, _ => none

inductive Moves (s : Mailbox M τ) : Action M τ → Mailbox M τ → Prop
  | notifyMsg (t : Option τ) (msg : M) (hidle : s.sender t = .idle)
      (hmay : maySend s t = true) :
      Moves s (.notifyMsg t msg)
        { s with sender := Function.update s.sender t (.atSyncPut msg) }
  | syncPut (t : Option τ) (msg : M) (hat : s.sender t = .atSyncPut msg)
      (hroom : s.recvMsgQueue.next s.recvMsgQueue.head ≠ s.recvMsgQueue.tail) :
      Moves s (.syncPut t)
        { s with
          recvMsgQueue := s.recvMsgQueue.push msg
          sender := Function.update s.sender t .atWrite
          putLog := s.putLog ++ [msg] }
  | write (t : Option τ) (hat : s.sender t = .atWrite) :
      Moves s (.write t)
        { s with
          eventFd := s.eventFd.write 1
          sender := Function.update s.sender t .idle }
  | fire (hloop : s.receiver = .inLoop) (hidle : s.sender none = .idle)
      (harmed : s.armed = true) (hpos : 0 < s.eventFd.counter) :
      Moves s .fire { s with armed := false, receiver := .atRead }
  | read (v : ℕ) (e : EventFd)
      (hat : s.receiver = .atRead ∨ s.receiver = .inLoop ∧ s.hasReactor = false)
      (hidle : s.sender none = .idle) (hread : s.eventFd.read = some (v, e)) :
      Moves s .read { s with eventFd := e, receiver := .atSyncGet v }
  | syncGet (hat : s.receiver = .atSyncGet 1)
      (hsome : s.recvMsgQueue.tail ≠ s.recvMsgQueue.head) :
      Moves s .syncGet
        { s with
          recvMsgQueue := s.recvMsgQueue.pop
          receiver := .inOnMessage (s.recvMsgQueue.buff s.recvMsgQueue.tail)
          handledLog := s.handledLog ++ [s.recvMsgQueue.buff s.recvMsgQueue.tail] }
  | finish (msg : M) (hat : s.receiver = .inOnMessage msg) (hidle : s.sender none = .idle) :
      Moves s .finish { s with receiver := .inLoop, armed := s.hasReactor }

theorem moves_of_readEventFd {s u : Mailbox M τ}
    (hat : s.receiver = .atRead ∨ s.receiver = .inLoop ∧ s.hasReactor = false)
    (hidle : s.sender none = .idle) (h : readEventFd s = some u) : Moves s .read u := by
  obtain ⟨⟨v, e⟩, hread, rfl⟩ := Option.map_eq_some_iff.mp h
  exact .read v e hat hidle hread

theorem moves_of_step {s u : Mailbox M τ} {a : Action M τ} (h : step s a = some u) :
    Moves s a u := by
  cases a with
  | notifyMsg t msg =>
      cases hst : s.sender t with
      | idle =>
          obtain ⟨hmay, rfl⟩ : maySend s t = true ∧
              { s with sender := Function.update s.sender t (.atSyncPut msg) } = u := by
            simpa [step, hst] using h
          exact .notifyMsg t msg hst hmay
      | atSyncPut msg' => simp [step, hst] at h
      | atWrite => simp [step, hst] at h
  | syncPut t =>
      cases hst : s.sender t with
      | idle => simp [step, hst] at h
      | atWrite => simp [step, hst] at h
      | atSyncPut msg =>
          by_cases hfull : s.recvMsgQueue.next s.recvMsgQueue.head = s.recvMsgQueue.tail
          · simp [step, hst, ConcurrentRingBuffer.syncPut, hfull] at h
          · simp only [step, hst, ConcurrentRingBuffer.syncPut, hfull, if_false,
              Option.some.injEq] at h
            exact h ▸ .syncPut t msg hst hfull
  | write t =>
      cases hst : s.sender t with
      | idle => simp [step, hst] at h
      | atSyncPut msg => simp [step, hst] at h
      | atWrite =>
          simp only [step, hst, Option.some.injEq] at h
          exact h ▸ .write t hst
  | fire =>
      cases hrc : s.receiver <;> cases hst : s.sender none <;> simp only [step, hrc, hst] at h
      case inLoop.idle =>
        obtain ⟨⟨harmed, hpos⟩, rfl⟩ : (s.armed = true ∧ 0 < s.eventFd.counter) ∧
            { s with armed := false, receiver := .atRead } = u := by
          simpa using h
        exact .fire hrc hst harmed hpos
      all_goals exact absurd h (by simp)
  | read =>
      cases hrc : s.receiver <;> cases hst : s.sender none <;> simp only [step, hrc, hst] at h
      case inLoop.idle =>
        obtain ⟨hno, h⟩ : s.hasReactor = false ∧ readEventFd s = some u := by simpa using h
        exact moves_of_readEventFd (.inr ⟨hrc, hno⟩) hst h
      case atRead.idle => exact moves_of_readEventFd (.inl hrc) hst h
      all_goals exact absurd h (by simp)
  | syncGet =>
      cases hrc : s.receiver with
      | inLoop => simp [step, hrc] at h
      | atRead => simp [step, hrc] at h
      | inOnMessage msg => simp [step, hrc] at h
      | atSyncGet v =>
          by_cases hv : v = 1
          · subst v
            by_cases hempty : s.recvMsgQueue.tail = s.recvMsgQueue.head
            · simp [step, hrc, ConcurrentRingBuffer.syncGet, hempty] at h
            · simp only [step, hrc, ConcurrentRingBuffer.syncGet, hempty, if_false, if_true,
                Option.some.injEq] at h
              exact h ▸ .syncGet hrc hempty
          · simp [step, hrc, hv] at h
  | finish =>
      cases hrc : s.receiver <;> cases hst : s.sender none <;> simp only [step, hrc, hst] at h
      case inOnMessage.idle msg => exact Option.some.inj h ▸ .finish msg hrc hst
      all_goals exact absurd h (by simp)

theorem Moves.frame {s u : Mailbox M τ} {a : Action M τ} (h : Moves s a u) :
    u.hasReactor = s.hasReactor ∧ u.recvMsgQueue.size = s.recvMsgQueue.size := by
  cases h <;> exact ⟨rfl, rfl⟩

theorem Moves.idle_of_idle {s u : Mailbox M τ} {a : Action M τ} (h : Moves s a u) {t : Option τ}
    (hidle : s.sender t = .idle) (hno : ∀ msg, a ≠ .notifyMsg t msg) : u.sender t = .idle := by
  have hother : ∀ {t' : Option τ} {pc : SenderPc M}, t ≠ t' →
      Function.update s.sender t' pc t = .idle := by
    intro t' pc hne
    rw [Function.update_of_ne hne, hidle]
  cases h with
  | notifyMsg t' msg hidle' hmay =>
      apply hother
      rintro rfl
      exact hno msg rfl
  | syncPut t' msg hat hroom =>
      apply hother
      rintro rfl
      simp [hidle] at hat
  | write t' hat =>
      apply hother
      rintro rfl
      simp [hidle] at hat
  | _ => exact hidle

/-- With a reactor only the eventfd takes the task's thread out of the loop. -/
theorem Moves.inLoop_of_inLoop {s u : Mailbox M τ} {a : Action M τ} (h : Moves s a u)
    (hreactor : s.hasReactor = true) (hloop : s.receiver = .inLoop) (hno : a ≠ .fire) :
    u.receiver = .inLoop := by
  cases h with
  | fire hloop' hidle harmed hpos => exact absurd rfl hno
  | read v e hat hidle hread => simp [hloop, hreactor] at hat
  | syncGet hat hsome => simp [hloop] at hat
  | finish msg hat hidle => simp [hloop] at hat
  | _ => exact hloop

end Steps

/-! ## The pairing of queue and eventfd -/

variable [Fintype τ]

def putNotWritten (s : Mailbox M τ) : ℕ := count SenderPc.isAtWrite s.sender

def readNotGot (s : Mailbox M τ) : ℕ := if s.receiver.isAtSyncGet then 1 else 0

structure Inv (s : Mailbox M τ) : Prop where
  valid : s.recvMsgQueue.Valid
  semaphore : s.eventFd.semaphore = true
  pairing : s.recvMsgQueue.elements.length =
    s.eventFd.counter + putNotWritten s + readNotGot s
  readable : s.receiver = .atRead → 0 < s.eventFd.counter
  readOne : ∀ v, s.receiver = .atSyncGet v → v = 1
  ownIdle : maySend s none = false → s.sender none = .idle
  armed : s.receiver = .inLoop → s.armed = s.hasReactor
  delivery : s.putLog = s.handledLog ++ s.recvMsgQueue.elements

theorem inv_start (hasReactor : Bool) {size : ℕ} (hsize : 1 ≤ size) (buff : ℕ → M) :
    Inv (start hasReactor size buff : Mailbox M τ) where
  valid := ConcurrentRingBuffer.valid_new hsize buff
  semaphore := rfl
  pairing := by
    have hnobody : putNotWritten (start hasReactor size buff : Mailbox M τ) = 0 :=
      count_eq_zero_iff.mpr fun _ => rfl
    rw [hnobody]
    simp [start, hsize, readNotGot, EventFd.createEventFd]
  readable := nofun
  readOne := nofun
  ownIdle _ := rfl
  armed _ := rfl
  delivery := by simp [start, hsize]

theorem Inv.maySend_of_busy {s : Mailbox M τ} (hs : Inv s) {t : Option τ}
    (hbusy : s.sender t ≠ .idle) (ht : t = none) : maySend s none = true := by
  subst ht
  by_contra hno
  exact hbusy (hs.ownIdle (by simpa using hno))

section Transit

variable {A : Type*} [AddCommMonoid A] (g : M → A)

def SenderPc.carried : SenderPc M → A
  | .atSyncPut msg => g msg
  | _ => 0

/-- The sum of `g` over the messages sent and not yet handled. -/
def inTransit (s : Mailbox M τ) : A :=
  total (SenderPc.carried g) s.sender + (s.recvMsgQueue.elements.map g).sum

def sends : Action M τ → A
  | .notifyMsg _ msg => g msg
  | _ => 0

def handles (u : Mailbox M τ) : Action M τ → A
  | .syncGet =>
      match u.receiver with
      | .inOnMessage msg => g msg
      | _ => 0
  | _ => 0

theorem inTransit_start (hasReactor : Bool) {size : ℕ} (hsize : 1 ≤ size) (buff : ℕ → M) :
    inTransit g (start hasReactor size buff : Mailbox M τ) = 0 := by
  simp [inTransit, start, hsize, total, SenderPc.carried]

end Transit

theorem Inv.syncGet_finishes {s : Mailbox M τ} (hs : Inv s) {v : ℕ}
    (hat : s.receiver = .atSyncGet v) :
    ∃ msg rest, s.recvMsgQueue.elements = msg :: rest ∧
      ConcurrentRingBuffer.syncGet s.recvMsgQueue =
        .finish s.recvMsgQueue.pop (.returnTrue msg) (some .condNotFull) := by
  have hsome : s.recvMsgQueue.tail ≠ s.recvMsgQueue.head := by
    intro hempty
    have hpair := hs.pairing
    rw [hs.valid.empty_iff.mp hempty, readNotGot, hat] at hpair
    simp at hpair
  refine ⟨_, _, hs.valid.elements_pop hsome, ?_⟩
  simp [ConcurrentRingBuffer.syncGet, hsome]

variable [DecidableEq τ]

theorem putNotWritten_update (s : Mailbox M τ) {t : Option τ} {pc : SenderPc M}
    (hpc : s.sender t = pc) (pc' : SenderPc M) :
    count SenderPc.isAtWrite (Function.update s.sender t pc') +
        (if pc.isAtWrite then 1 else 0) =
      putNotWritten s + if pc'.isAtWrite then 1 else 0 := by
  rw [← hpc]
  exact count_update _ _ _ _

theorem Inv.ownIdle_update {s : Mailbox M τ} (hs : Inv s) {t : Option τ}
    (hmay : t = none → maySend s none = true) (pc : SenderPc M)
    (hno : maySend s none = false) : Function.update s.sender t pc none = .idle := by
  have hne : none ≠ t := by
    intro ht
    rw [hmay ht.symm] at hno
    exact Bool.noConfusion hno
  rw [Function.update_of_ne hne]
  exact hs.ownIdle hno

theorem Inv.step {s u : Mailbox M τ} {a : Action M τ} (hs : Inv s)
    (h : InteractiveTask.step s a = some u) : Inv u := by
  have hpair := hs.pairing
  cases moves_of_step h with
  | notifyMsg t msg hidle hmay =>
      have hcount := putNotWritten_update s hidle (.atSyncPut msg)
      refine { hs with pairing := ?_, ownIdle := hs.ownIdle_update ?_ _ }
      · change s.recvMsgQueue.elements.length = s.eventFd.counter +
          count SenderPc.isAtWrite (Function.update s.sender t _) + readNotGot s
        simp at hcount
        omega
      · rintro rfl
        exact hmay
  | syncPut t msg hat hroom =>
      have hcount := putNotWritten_update s hat .atWrite
      have hqueue := hs.valid.elements_push msg hroom
      refine { hs with valid := hs.valid.push msg, pairing := ?_, ownIdle := ?_, delivery := ?_ }
      · change List.length (ConcurrentRingBuffer.push _ msg).elements =
          s.eventFd.counter +
            count SenderPc.isAtWrite (Function.update s.sender t _) + readNotGot s
        rw [hqueue, List.length_append, List.length_singleton]
        simp at hcount
        omega
      · exact hs.ownIdle_update (hs.maySend_of_busy (by simp [hat])) _
      · change s.putLog ++ [msg] = s.handledLog ++ (ConcurrentRingBuffer.push _ msg).elements
        rw [hqueue, hs.delivery, List.append_assoc]
  | write t hat =>
      have hcount := putNotWritten_update s hat .idle
      refine { hs with pairing := ?_, readable := fun _ => Nat.succ_pos _, ownIdle := ?_ }
      · change s.recvMsgQueue.elements.length =
          s.eventFd.counter + 1 +
            count SenderPc.isAtWrite (Function.update s.sender t _) + readNotGot s
        simp at hcount
        omega
      · exact hs.ownIdle_update (hs.maySend_of_busy (by simp [hat])) _
  | fire hloop hidle harmed hpos =>
      refine { hs with pairing := ?_, readable := fun _ => hpos, readOne := nofun,
                       ownIdle := fun _ => hidle, armed := nofun }
      simpa [putNotWritten, readNotGot, hloop] using hpair
  | read v e hat hidle hread =>
      obtain ⟨rfl, hcounter, hsem⟩ := EventFd.read_semaphore hs.semaphore hread
      have hnot : readNotGot s = 0 := by
        rcases hat with hat | ⟨hat, -⟩ <;> simp [readNotGot, hat]
      refine { hs with semaphore := hsem, pairing := ?_, readable := nofun, readOne := ?_,
                       ownIdle := fun _ => hidle, armed := nofun }
      · change s.recvMsgQueue.elements.length = e.counter + putNotWritten s + 1
        omega
      · rintro v hv
        exact (ReceiverPc.atSyncGet.inj hv).symm
  | syncGet hat hsome =>
      have hqueue := hs.valid.elements_pop hsome
      have hone : readNotGot s = 1 := by
        simp [readNotGot, hat]
      refine { hs with valid := hs.valid.pop, pairing := ?_, readable := nofun, readOne := nofun,
                       ownIdle := nofun, armed := nofun, delivery := ?_ }
      · change List.length (ConcurrentRingBuffer.pop _).elements =
          s.eventFd.counter + putNotWritten s + 0
        rw [hqueue, List.length_cons] at hpair
        omega
      · change s.putLog = (s.handledLog ++ [_]) ++ (ConcurrentRingBuffer.pop _).elements
        rw [hs.delivery, hqueue, List.append_assoc, List.singleton_append]
  | finish msg hat hidle =>
      refine { hs with pairing := ?_, readable := nofun, readOne := nofun,
                       ownIdle := fun _ => hidle, armed := fun _ => rfl }
      simpa [putNotWritten, readNotGot, hat] using hpair

section Transit

variable {A : Type*} [AddCommMonoid A] (g : M → A)

theorem Inv.inTransit_step {s u : Mailbox M τ} {a : Action M τ} (hs : Inv s)
    (h : InteractiveTask.step s a = some u) :
    inTransit g u + handles g u a = inTransit g s + sends g a := by
  cases moves_of_step h with
  | notifyMsg t msg hidle hmay =>
      have hsum := total_update (SenderPc.carried g) s.sender t (.atSyncPut msg)
      rw [hidle] at hsum
      simp only [SenderPc.carried, add_zero] at hsum
      simp only [inTransit, handles, sends, add_zero, hsum]
      rw [add_right_comm]
  | syncPut t msg hat hroom =>
      have hsum := total_update (SenderPc.carried g) s.sender t .atWrite
      rw [hat] at hsum
      simp only [SenderPc.carried, add_zero] at hsum
      simp only [inTransit, handles, sends, add_zero, hs.valid.elements_push msg hroom,
        List.map_append, List.sum_append, List.map_singleton, List.sum_singleton]
      rw [← hsum, add_assoc, add_comm (g msg)]
  | write t hat =>
      have hsum := total_update (SenderPc.carried g) s.sender t .idle
      rw [hat] at hsum
      simp only [SenderPc.carried, add_zero] at hsum
      simp only [inTransit, handles, sends, add_zero, hsum]
  | fire hloop hidle harmed hpos => rfl
  | read v e hat hidle hread => rfl
  | syncGet hat hsome =>
      have hqueue := hs.valid.elements_pop hsome
      simp only [inTransit, handles, sends, add_zero, hqueue, List.map_cons, List.sum_cons]
      rw [add_assoc, add_comm (g _)]
  | finish msg hat hidle => rfl

end Transit

theorem inv_of_run (hasReactor : Bool) {size : ℕ} (hsize : 1 ≤ size) (buff : ℕ → M)
    {as : List (Action M τ)} {s : Mailbox M τ}
    (hrun : Transition.run step (start hasReactor size buff) as = some s) : Inv s :=
  Transition.run_invariant (fun _ _ _ hs h => hs.step h) (inv_start hasReactor hsize buff) hrun

/-! ## What is enabled -/

theorem Inv.syncGet_isSome {s : Mailbox M τ} (hs : Inv s) {v : ℕ}
    (hat : s.receiver = .atSyncGet v) : (InteractiveTask.step s .syncGet).isSome := by
  obtain ⟨msg, rest, -, hget⟩ := hs.syncGet_finishes hat
  obtain rfl := hs.readOne v hat
  simp [InteractiveTask.step, hat, hget]

theorem Inv.read_isSome {s : Mailbox M τ} (hs : Inv s) (hat : s.receiver = .atRead) :
    (InteractiveTask.step s .read).isSome := by
  have hread := EventFd.read_isSome (hs.readable hat)
  simpa [InteractiveTask.step, hat, hs.ownIdle (by simp [maySend, hat]), readEventFd] using hread

/-- In the loop a counted message is noticed: the handler that fires is armed. -/
theorem Inv.notices {s : Mailbox M τ} (hs : Inv s) (hloop : s.receiver = .inLoop)
    (hidle : s.sender none = .idle) (hpos : 0 < s.eventFd.counter) :
    (InteractiveTask.step s (if s.hasReactor then .fire else .read)).isSome := by
  have harmed := hs.armed hloop
  cases hreactor : s.hasReactor with
  | true =>
      rw [hreactor] at harmed
      simp [InteractiveTask.step, hloop, hidle, harmed, hpos]
  | false =>
      have hread := EventFd.read_isSome hpos
      simpa [InteractiveTask.step, hloop, hidle, hreactor, readEventFd] using hread

omit [DecidableEq τ] in
theorem Inv.elements_eq_nil {s : Mailbox M τ} (hs : Inv s) (hcounter : s.eventFd.counter = 0)
    (hsenders : ∀ t, s.sender t ≠ .atWrite) (hreceiver : ∀ v, s.receiver ≠ .atSyncGet v) :
    s.recvMsgQueue.elements = [] := by
  have hnobody : putNotWritten s = 0 := count_eq_zero_iff.mpr fun t => by
    cases hst : s.sender t with
    | atWrite => exact absurd hst (hsenders t)
    | idle => rfl
    | atSyncPut msg => rfl
  have hnot : readNotGot s = 0 := by
    cases hrc : s.receiver with
    | atSyncGet v => exact absurd hrc (hreceiver v)
    | inLoop => simp [readNotGot, hrc]
    | atRead => simp [readNotGot, hrc]
    | inOnMessage msg => simp [readNotGot, hrc]
  have hpair := hs.pairing
  rw [hcounter, hnobody, hnot] at hpair
  exact List.length_eq_zero_iff.mp hpair

/-! ## Coming to rest -/

/-- The steps other than the beginning of another `notifyMsg`. -/
def quietStep (s : Mailbox M τ) : Action M τ → Option (Mailbox M τ)
  | .notifyMsg _ _ => none
  | a => InteractiveTask.step s a

def AtRest (s : Mailbox M τ) : Prop := ∀ a, quietStep s a = none

/-- The task's own thread is in `syncPut` on its own full queue, from which nobody
else takes. -/
def BlocksItself (s : Mailbox M τ) : Prop :=
  (∃ msg, s.sender none = .atSyncPut msg) ∧
    s.recvMsgQueue.next s.recvMsgQueue.head = s.recvMsgQueue.tail

/-- Steps left to the end of `notifyMsg`, and of the receiver for the message. -/
def SenderPc.work : SenderPc M → ℕ
  | .idle => 0
  | .atSyncPut _ => 6
  | .atWrite => 1

def ReceiverPc.work : ReceiverPc M → ℕ
  | .inLoop => 3
  | .atRead => 2
  | .atSyncGet _ => 1
  | .inOnMessage _ => 4

def work (s : Mailbox M τ) : ℕ :=
  total SenderPc.work s.sender + 4 * s.recvMsgQueue.elements.length + s.receiver.work

omit [Fintype τ] in
theorem quietStep_eq_some {s u : Mailbox M τ} {a : Action M τ} :
    quietStep s a = some u ↔
      (∀ t msg, a ≠ .notifyMsg t msg) ∧ InteractiveTask.step s a = some u := by
  cases a <;> simp [quietStep]

omit [Fintype τ] in
theorem AtRest.step_eq_none {s : Mailbox M τ} (hrest : AtRest s) {a : Action M τ}
    (ha : ∀ t msg, a ≠ .notifyMsg t msg) : InteractiveTask.step s a = none := by
  rw [← hrest a]
  cases a with
  | notifyMsg t msg => exact absurd rfl (ha t msg)
  | _ => rfl

theorem Inv.work_step {s u : Mailbox M τ} {a : Action M τ} (hs : Inv s)
    (h : InteractiveTask.step s a = some u) :
    InteractiveTask.work u + 1 ≤ InteractiveTask.work s + sends (fun _ => 7) a := by
  cases moves_of_step h with
  | notifyMsg t msg hidle hmay =>
      have hsum := total_update SenderPc.work s.sender t (.atSyncPut msg)
      simp only [hidle, SenderPc.work] at hsum
      simp only [InteractiveTask.work, sends]
      omega
  | syncPut t msg hat hroom =>
      have hsum := total_update SenderPc.work s.sender t .atWrite
      simp only [hat, SenderPc.work] at hsum
      simp only [InteractiveTask.work, hs.valid.elements_push msg hroom, List.length_append,
        List.length_singleton, sends]
      omega
  | write t hat =>
      have hsum := total_update SenderPc.work s.sender t .idle
      simp only [hat, SenderPc.work] at hsum
      simp only [InteractiveTask.work, sends]
      omega
  | fire hloop hidle harmed hpos =>
      simp only [InteractiveTask.work, hloop, ReceiverPc.work, sends]
      omega
  | read v e hat hidle hread =>
      rcases hat with hat | ⟨hat, -⟩
      · simp only [InteractiveTask.work, hat, ReceiverPc.work, sends]
        omega
      · simp only [InteractiveTask.work, hat, ReceiverPc.work, sends]
        omega
  | syncGet hat hsome =>
      simp only [InteractiveTask.work, hs.valid.elements_pop hsome, List.length_cons, hat,
        ReceiverPc.work, sends]
      omega
  | finish msg hat hidle =>
      simp only [InteractiveTask.work, hat, ReceiverPc.work, sends]
      omega

omit [Fintype τ] in
theorem Moves.putLog_grows {s u : Mailbox M τ} {a : Action M τ} (h : Moves s a u) :
    s.putLog <+: u.putLog := by
  cases h with
  | syncPut t msg hat hroom => exact List.prefix_append _ _
  | _ => exact List.prefix_rfl

theorem Inv.quiet_run {s u : Mailbox M τ} {bs : List (Action M τ)} (hs : Inv s)
    (hrun : Transition.run quietStep s bs = some u) :
    Inv u ∧ s.putLog <+: u.putLog ∧ bs.length ≤ InteractiveTask.work s := by
  obtain ⟨hu, hput⟩ := Transition.run_invariant (I := fun u => Inv u ∧ s.putLog <+: u.putLog)
    (fun v a w hv h => by
      have hstep := (quietStep_eq_some.mp h).2
      exact ⟨hv.1.step hstep, hv.2.trans (moves_of_step hstep).putLog_grows⟩)
    ⟨hs, List.prefix_rfl⟩ hrun
  have hwork := Transition.length_add_measure_le (I := Inv) (μ := InteractiveTask.work)
    (fun v a w hv h => hv.step (quietStep_eq_some.mp h).2)
    (fun v a w hv h => by
      obtain ⟨hquiet, hstep⟩ := quietStep_eq_some.mp h
      have hnothing : sends (fun _ => 7) a = 0 := by
        cases a with
        | notifyMsg t msg => exact absurd rfl (hquiet t msg)
        | _ => rfl
      have hless := hv.work_step hstep
      omega)
    hs hrun
  exact ⟨hu, hput, (Nat.le_add_right _ _).trans hwork⟩

omit [Fintype τ] in
theorem AtRest.sender_ne_atWrite {s : Mailbox M τ} (hrest : AtRest s) (t : Option τ) :
    s.sender t ≠ .atWrite := by
  intro hat
  have hwrite := hrest.step_eq_none (a := .write t) (by simp)
  simp [InteractiveTask.step, hat] at hwrite

omit [Fintype τ] in
theorem AtRest.full {s : Mailbox M τ} (hrest : AtRest s) {t : Option τ} {msg : M}
    (hat : s.sender t = .atSyncPut msg) :
    s.recvMsgQueue.next s.recvMsgQueue.head = s.recvMsgQueue.tail := by
  by_contra hroom
  have hput := hrest.step_eq_none (a := .syncPut t) (by simp)
  simp [InteractiveTask.step, hat, ConcurrentRingBuffer.syncPut, hroom] at hput

/-- A task that is not blocked by itself rests in the loop, with nothing to handle. -/
theorem Inv.handled_of_atRest {s : Mailbox M τ} (hs : Inv s) (hrest : AtRest s)
    (hfree : ¬ BlocksItself s) :
    s.recvMsgQueue.elements = [] ∧ s.handledLog = s.putLog := by
  have hidle : s.sender none = .idle := by
    cases hat : s.sender none with
    | idle => rfl
    | atSyncPut msg => exact absurd ⟨⟨msg, hat⟩, hrest.full hat⟩ hfree
    | atWrite => exact absurd hat (hrest.sender_ne_atWrite none)
  have hnone : ∀ {a : Action M τ}, (∀ t msg, a ≠ .notifyMsg t msg) →
      ¬ (InteractiveTask.step s a).isSome := by
    intro a ha
    simp [hrest.step_eq_none ha]
  have hloop : s.receiver = .inLoop := by
    cases hat : s.receiver with
    | inLoop => rfl
    | atRead => exact absurd (hs.read_isSome hat) (hnone (by simp))
    | atSyncGet v => exact absurd (hs.syncGet_isSome hat) (hnone (by simp))
    | inOnMessage msg =>
        have hfinish := hrest.step_eq_none (a := .finish) (by simp)
        simp [InteractiveTask.step, hat, hidle] at hfinish
  have hcounter : s.eventFd.counter = 0 := by
    by_contra hpos
    refine absurd (hs.notices hloop hidle (Nat.pos_of_ne_zero hpos)) (hnone ?_)
    split <;> simp
  have hempty := hs.elements_eq_nil hcounter hrest.sender_ne_atWrite (by simp [hloop])
  refine ⟨hempty, ?_⟩
  rw [hs.delivery, hempty, List.append_nil]

/-- Every message put into the mailbox is handled once and in order, the
receiver never blocks on the queue and never reads a value but 1, and in the loop
its handler is armed.  Once nothing new is sent, the steps that are left end with
every message handled, unless the task's thread waits for its own queue. -/
theorem delivers_exactly_once (hasReactor : Bool) {size : ℕ} (hsize : 1 ≤ size) (buff : ℕ → M)
    {as : List (Action M τ)} {s : Mailbox M τ}
    (hrun : Transition.run step (start hasReactor size buff) as = some s) :
    s.recvMsgQueue.elements.length = s.eventFd.counter + putNotWritten s + readNotGot s ∧
      (∀ v, s.receiver = .atSyncGet v → v = 1 ∧ (step s .syncGet).isSome ∧
        ∃ msg rest, s.recvMsgQueue.elements = msg :: rest ∧
          ConcurrentRingBuffer.syncGet s.recvMsgQueue =
            .finish s.recvMsgQueue.pop (.returnTrue msg) (some .condNotFull)) ∧
      (s.receiver = .atRead → (step s .read).isSome) ∧
      s.putLog = s.handledLog ++ s.recvMsgQueue.elements ∧
      (s.eventFd.counter = 0 → (∀ t, s.sender t ≠ .atWrite) →
        (∀ v, s.receiver ≠ .atSyncGet v) →
        s.recvMsgQueue.elements = [] ∧ s.handledLog = s.putLog) ∧
      (s.receiver = .inLoop → s.armed = s.hasReactor) ∧
      (s.receiver = .inLoop → s.sender none = .idle → 0 < s.eventFd.counter →
        (step s (if s.hasReactor then .fire else .read)).isSome) ∧
      ∀ bs u, Transition.run quietStep s bs = some u →
        bs.length ≤ work s ∧ s.putLog <+: u.putLog ∧
          (AtRest u → ¬ BlocksItself u →
            u.recvMsgQueue.elements = [] ∧ u.handledLog = u.putLog) := by
  have hs := inv_of_run hasReactor hsize buff hrun
  refine ⟨hs.pairing, ?_, hs.read_isSome, hs.delivery, ?_, hs.armed, hs.notices, ?_⟩
  · intro v hat
    obtain ⟨msg, rest, hqueue, hget⟩ := hs.syncGet_finishes hat
    exact ⟨hs.readOne v hat, hs.syncGet_isSome hat, msg, rest, hqueue, hget⟩
  · intro hcounter hsenders hreceiver
    have hempty := hs.elements_eq_nil hcounter hsenders hreceiver
    refine ⟨hempty, ?_⟩
    rw [hs.delivery, hempty, List.append_nil]
  · intro bs u hbs
    obtain ⟨hu, hput, hwork⟩ := hs.quiet_run hbs
    exact ⟨hwork, hput, hu.handled_of_atRest⟩

/-- A sender overtakes the first on a mailbox of capacity 2, and the task
answers itself from inside `onMessage`. -/
def overtaking : List (Action ℕ (Fin 2)) :=
  [.notifyMsg (some 0) 1, .syncPut (some 0), .notifyMsg (some 1) 2, .syncPut (some 1),
    .write (some 1), .fire, .read, .syncGet, .notifyMsg none 3, .syncPut none, .write none,
    .finish]

/-- The first sender writes at last, and the task handles the two messages left. -/
def catchingUp : List (Action ℕ (Fin 2)) :=
  [.fire, .read, .write (some 0), .syncGet, .finish, .fire, .read, .syncGet, .finish]

theorem delivers_exactly_once_overtaking :
    ∃ s u : Mailbox ℕ (Fin 2),
      Transition.run step (start true 3 fun _ => 0) overtaking = some s ∧
      s.handledLog = [1] ∧ s.putLog = [1, 2, 3] ∧ putNotWritten s = 1 ∧ s.armed = true ∧
      s.putLog = s.handledLog ++ s.recvMsgQueue.elements ∧
      Transition.run quietStep s catchingUp = some u ∧ u.handledLog = [1, 2, 3] ∧
      catchingUp.length ≤ work s := by
  obtain ⟨-, -, -, hdelivery, -, harmed, -, hquiet⟩ :=
    @delivers_exactly_once ℕ (Fin 2) _ _ true 3 (by decide) (fun _ => 0) overtaking _ rfl
  exact ⟨_, _, rfl, rfl, rfl, rfl, harmed rfl, hdelivery, rfl, rfl, (hquiet _ _ rfl).1⟩

end InteractiveTask

end Banana
