import Banana.MultiThreading.InteractiveTask
import Mathlib.Algebra.Order.Group.Multiset
import Mathlib.Tactic.Abel

/-!
# The end of an InteractiveTask

A registered, running task while other threads call `syncSendMsgTo` with its
name.  Without a reactor the loop ends when another thread has called
`setStat`, with one when the dispatch of the reactor returns; then the task
unregisters, closes its eventfd and `start` returns.

`syncSendMsgTo` looks the name up, which blocks while it is absent, and takes
`RECEIVER_NOT_EXIST` from the reference alone, that is from the task object
having been destroyed.  The object outlives the loop, and nothing empties the
queue, so a message may be put, and its sender told so, after the last call of
`onMessage`.
-/

namespace Banana

open Threads

namespace InteractiveTask

variable {M τ : Type*}

inductive Stat
  | starting
  | running
  | stopping
  | stopped
  deriving DecidableEq

/-- Where `start` is: at the test of the loop or in the dispatch of the reactor,
behind a test that held, or in one of the steps that stop the task. -/
inductive Phase
  | inLoop
  | tested
  | atSetStopped
  | atOnStop
  | atUnregister
  | atClose
  | returned
  deriving DecidableEq

def Phase.ended : Phase → Bool
  | inLoop => false
  | tested => false
  | _ => true

/-- A thread in `syncSendMsgTo`: before the lookup, before `lock()` on the
reference found, or in `notifyMsg` with a reference of its own. -/
inductive CallerPc (M : Type*)
  | outside
  | atWaitFind (spMessage : M)
  | atLock (spMessage : M)
  | inNotify (spMessage : M)

@[simp] def CallerPc.isInNotify : CallerPc M → Bool
  | inNotify _ => true
  | _ => false

@[simp] def CallerPc.isAtWaitFind : CallerPc M → Bool
  | atWaitFind _ => true
  | _ => false

/-- The message of a call that is in `notifyMsg`, or of a call at all. -/
def CallerPc.notified : CallerPc M → Multiset M
  | inNotify msg => {msg}
  | _ => 0

def CallerPc.carried : CallerPc M → Multiset M
  | outside => 0
  | atWaitFind msg => {msg}
  | atLock msg => {msg}
  | inNotify msg => {msg}

def SenderPc.unput : SenderPc M → Multiset M
  | atSyncPut msg => {msg}
  | _ => 0

/-- The logs are the messages of the calls begun and of those that returned
`RECEIVER_RECV_OK` and `RECEIVER_NOT_EXIST`. -/
structure Task (M τ : Type*) where
  mailbox : Mailbox M τ
  stat : Stat
  phase : Phase
  registered : Bool
  alive : Bool
  caller : Option τ → CallerPc M
  callLog : List M
  okLog : List M
  notExistLog : List M

namespace Task

inductive Action (M τ : Type*)
  | syncSendMsgTo (t : Option τ) (spMessage : M)
  | waitFind (t : Option τ)
  | lock (t : Option τ)
  | syncPut (t : Option τ)
  | write (t : Option τ)
  | setStat (stat : Stat)
  | testStat
  | endDispatch
  | receive (a : InteractiveTask.Action M τ)
  | stop
  | destroy

/-- `start` has registered the task. -/
def start (hasReactor : Bool) (size : ℕ) (buff : ℕ → M) : Task M τ where
  mailbox := InteractiveTask.start hasReactor size buff
  stat := .running
  phase := .inLoop
  registered := true
  alive := true
  caller := fun _ => .outside
  callLog := []
  okLog := []
  notExistLog := []

/-- The task's own thread sends from the subclass's functions. -/
def mayCall (s : Task M τ) : Option τ → Bool
  | some _ => true
  | none =>
      match s.phase, s.mailbox.receiver with
      | .inLoop, _ => maySend s.mailbox none
      | .tested, .inOnMessage _ => true
      | .atOnStop, _ => true
      | _, _ => false

/-- The steps of the task's thread in the loop. -/
def receives : InteractiveTask.Action M τ → Bool
  | .fire => true
  | .read => true
  | .syncGet => true
  | .finish => true
  | _ => false

/-- The thread is at the top of the loop. -/
def atTop (s : Task M τ) : Bool :=
  match s.phase, s.mailbox.receiver with
  | .inLoop, .inLoop => true
  | _, _ => false

def ownOutside (s : Task M τ) : Bool :=
  match s.caller none with
  | .outside => true
  | _ => false

/-- The steps behind the loop: `setStat(STOPPED)`, `onStop`, the registry, the eventfd. -/
def stopStep (s : Task M τ) : Option (Task M τ) :=
  match s.phase with
  | .atSetStopped => some { s with stat := .stopped, phase := .atOnStop }
  | .atOnStop => some { s with phase := .atUnregister }
  | .atUnregister => some { s with registered := false, phase := .atClose }
  | .atClose => some { s with phase := .returned }
  | _ => none

theorem atTop_spec {s : Task M τ} (h : s.atTop = true) :
    s.phase = .inLoop ∧ s.mailbox.receiver = .inLoop := by
  unfold atTop at h
  split at h
  · exact ⟨‹_›, ‹_›⟩
  · simp at h

inductive Stops (s : Task M τ) : Task M τ → Prop
  | setStopped (hat : s.phase = .atSetStopped) :
      Stops s { s with stat := .stopped, phase := .atOnStop }
  | onStop (hat : s.phase = .atOnStop) : Stops s { s with phase := .atUnregister }
  | unregister (hat : s.phase = .atUnregister) :
      Stops s { s with registered := false, phase := .atClose }
  | close (hat : s.phase = .atClose) : Stops s { s with phase := .returned }

theorem stops_of_stopStep {s u : Task M τ} (h : s.stopStep = some u) : Stops s u := by
  cases hat : s.phase <;> simp only [stopStep, hat, Option.some.injEq, reduceCtorEq] at h
  case atSetStopped => exact h ▸ .setStopped hat
  case atOnStop => exact h ▸ .onStop hat
  case atUnregister => exact h ▸ .unregister hat
  case atClose => exact h ▸ .close hat

/-- A caller in `notifyMsg` is the sender that the mailbox sees. -/
def Paired : CallerPc M → SenderPc M → Prop
  | .inNotify msg, .atSyncPut msg' => msg' = msg
  | .inNotify _, .atWrite => True
  | .inNotify _, .idle => False
  | _, .idle => True
  | _, _ => False

theorem Paired.idle_of_outside {pc : CallerPc M} {spc : SenderPc M} (h : Paired pc spc)
    (hno : pc.isInNotify = false) : spc = .idle := by
  cases spc with
  | idle => rfl
  | _ => cases pc <;> simp_all [Paired]

theorem paired_idle {pc : CallerPc M} (hno : pc.isInNotify = false) : Paired pc .idle := by
  cases pc with
  | inNotify msg => simp at hno
  | _ => trivial

section

variable [Fintype τ]

structure Inv (s : Task M τ) : Prop where
  running : s.phase.ended = false → InteractiveTask.Inv s.mailbox ∧ s.registered = true
  valid : s.mailbox.recvMsgQueue.Valid
  delivery : s.mailbox.putLog = s.mailbox.handledLog ++ s.mailbox.recvMsgQueue.elements
  written : s.phase.ended = true → ∀ t, s.mailbox.sender t = .atWrite →
    s.mailbox.recvMsgQueue.elements ≠ []
  paired : ∀ t, Paired (s.caller t) (s.mailbox.sender t)
  unregistered : s.phase = .atClose ∨ s.phase = .returned → s.registered = false

theorem inv_start (hasReactor : Bool) {size : ℕ} (hsize : 1 ≤ size) (buff : ℕ → M) :
    Inv (start hasReactor size buff : Task M τ) where
  running _ := ⟨InteractiveTask.inv_start hasReactor hsize buff, rfl⟩
  valid := (InteractiveTask.inv_start (τ := τ) hasReactor hsize buff).valid
  delivery := (InteractiveTask.inv_start (τ := τ) hasReactor hsize buff).delivery
  written := nofun
  paired _ := trivial
  unregistered := by simp [start]

end

section Steps

variable [DecidableEq τ]

def setCaller (s : Task M τ) (t : Option τ) (pc : CallerPc M) : Task M τ :=
  { s with caller := Function.update s.caller t pc }

/-- The test of the loop, or the blocking read of the one without a reactor. -/
def receiveStep (s : Task M τ) (a : InteractiveTask.Action M τ) : Option (Task M τ) :=
  if receives a = true ∧ s.ownOutside = true ∧
      s.phase = (if s.mailbox.hasReactor then .inLoop else .tested) then
    (InteractiveTask.step s.mailbox a).map fun mailbox =>
      match a with
      | .finish => { s with mailbox := mailbox, phase := .inLoop }
      | _ => { s with mailbox := mailbox }
  else none

/-- `write` on the closed eventfd fails and changes nothing. -/
def writeEventFd (s : Task M τ) (t : Option τ) : Option (Mailbox M τ) :=
  if s.phase = .returned then
    match s.mailbox.sender t with
    | .atWrite =>
        some { s.mailbox with sender := Function.update s.mailbox.sender t .idle }
    | _ => none
  else InteractiveTask.step s.mailbox (.write t)

/-- The object goes with its last reference, and a caller in `notifyMsg` has one. -/
def step [Fintype τ] (s : Task M τ) : Action M τ → Option (Task M τ)
  | .syncSendMsgTo t msg =>
      match s.caller t with
      | .outside =>
          if s.mayCall t then
            some { s.setCaller t (.atWaitFind msg) with callLog := s.callLog ++ [msg] }
          else none
      | _ => none
  | .waitFind t =>
      match s.caller t with
      | .atWaitFind msg => if s.registered then some (s.setCaller t (.atLock msg)) else none
      | _ => none
  | .lock t =>
      match s.caller t with
      | .atLock msg =>
          if s.alive then
            (InteractiveTask.step s.mailbox (.notifyMsg t msg)).map fun mailbox =>
              { s.setCaller t (.inNotify msg) with mailbox := mailbox }
          else
            some { s.setCaller t .outside with notExistLog := s.notExistLog ++ [msg] }
      | _ => none
  | .syncPut t =>
      match s.caller t with
      | .inNotify _ =>
          (InteractiveTask.step s.mailbox (.syncPut t)).map fun mailbox =>
            { s with mailbox := mailbox }
      | _ => none
  | .write t =>
      match s.caller t with
      | .inNotify msg =>
          (s.writeEventFd t).map fun mailbox =>
            { s.setCaller t .outside with mailbox := mailbox, okLog := s.okLog ++ [msg] }
      | _ => none
  | .setStat stat => some { s with stat := stat }
  | .testStat =>
      if s.atTop = true ∧ s.ownOutside = true ∧ s.mailbox.hasReactor = false then
        some { s with phase := if s.stat = .running then .tested else .atSetStopped }
      else none
  | .endDispatch =>
      if s.atTop = true ∧ s.ownOutside = true ∧ s.mailbox.hasReactor = true then
        some { s with phase := .atSetStopped }
      else none
  | .receive a => s.receiveStep a
  | .stop => if s.ownOutside then s.stopStep else none
  | .destroy =>
      if s.phase = .returned ∧ count CallerPc.isInNotify s.caller = 0 then
        some { s with alive := false }
      else none

theorem receiveStep_spec {s u : Task M τ} {a : InteractiveTask.Action M τ}
    (h : s.receiveStep a = some u) :
    ∃ mailbox phase, u = { s with mailbox := mailbox, phase := phase } ∧ receives a = true ∧
      InteractiveTask.step s.mailbox a = some mailbox ∧ s.phase.ended = false ∧
      phase.ended = false := by
  simp only [receiveStep, Option.ite_none_right_eq_some] at h
  obtain ⟨⟨hreceives, -, hphase⟩, h⟩ := h
  obtain ⟨mailbox, hmail, hu⟩ := Option.map_eq_some_iff.mp h
  have hended : s.phase.ended = false := by
    rw [hphase]
    split_ifs <;> rfl
  cases a with
  | finish => exact ⟨mailbox, .inLoop, hu.symm, hreceives, hmail, hended, rfl⟩
  | _ => exact ⟨mailbox, s.phase, hu.symm, hreceives, hmail, hended, hended⟩

/-- The receiving side changes neither the senders nor what has been put. -/
theorem frame_of_receives {m m' : Mailbox M τ} {a : InteractiveTask.Action M τ}
    (hreceives : receives a = true) (h : InteractiveTask.step m a = some m') :
    m'.sender = m.sender ∧ m'.putLog = m.putLog := by
  cases InteractiveTask.moves_of_step h with
  | notifyMsg t msg hidle hmay => simp [receives] at hreceives
  | syncPut t msg hat hroom => simp [receives] at hreceives
  | write t hat => simp [receives] at hreceives
  | _ => exact ⟨rfl, rfl⟩

theorem writeEventFd_spec {s : Task M τ} {t : Option τ} {mailbox : Mailbox M τ}
    (h : s.writeEventFd t = some mailbox) :
    s.mailbox.sender t = .atWrite ∧
      mailbox.sender = Function.update s.mailbox.sender t .idle ∧
      mailbox.recvMsgQueue = s.mailbox.recvMsgQueue ∧ mailbox.putLog = s.mailbox.putLog ∧
      mailbox.handledLog = s.mailbox.handledLog ∧
      (s.phase ≠ .returned → InteractiveTask.step s.mailbox (.write t) = some mailbox) := by
  rw [writeEventFd] at h
  by_cases hreturned : s.phase = .returned
  · rw [if_pos hreturned] at h
    cases hst : s.mailbox.sender t with
    | atWrite =>
        simp only [hst, Option.some.injEq] at h
        subst h
        exact ⟨rfl, rfl, rfl, rfl, rfl, fun hno => absurd hreturned hno⟩
    | _ => simp [hst] at h
  · rw [if_neg hreturned] at h
    cases InteractiveTask.moves_of_step h with
    | write _ hat => exact ⟨hat, rfl, rfl, rfl, rfl, fun _ => h⟩

theorem paired_update {s : Task M τ} (hs : ∀ t, Paired (s.caller t) (s.mailbox.sender t))
    {t : Option τ} {pc : CallerPc M} {spc : SenderPc M} (hpc : Paired pc spc) :
    ∀ u, Paired (Function.update s.caller t pc u) (Function.update s.mailbox.sender t spc u) := by
  intro u
  by_cases hu : u = t
  · subst hu
    simpa using hpc
  · simpa [Function.update_of_ne hu] using hs u

theorem paired_setCaller {s : Task M τ}
    (hs : ∀ t, Paired (s.caller t) (s.mailbox.sender t)) {t : Option τ} {pc : CallerPc M}
    (hpc : Paired pc (s.mailbox.sender t)) :
    ∀ u, Paired (Function.update s.caller t pc u) (s.mailbox.sender u) := by
  have hpaired := paired_update (t := t) hs hpc
  rwa [Function.update_eq_self] at hpaired

theorem forall_update {p : CallerPc M → Bool} {caller : Option τ → CallerPc M} {t : Option τ}
    {pc : CallerPc M} (h : ∀ u, p (caller u) = false) (hpc : p pc = false) :
    ∀ u, p (Function.update caller t pc u) = false := by
  intro u
  by_cases hu : u = t
  · rw [hu, Function.update_self, hpc]
  · rw [Function.update_of_ne hu, h u]

theorem forall_of_update {p : CallerPc M → Bool} {caller : Option τ → CallerPc M} {t : Option τ}
    {pc : CallerPc M} (h : ∀ u, p (Function.update caller t pc u) = false)
    (ht : p (caller t) = false) : ∀ u, p (caller u) = false := by
  intro u
  by_cases hu : u = t
  · rw [hu, ht]
  · rw [← h u, Function.update_of_ne hu]

theorem of_update (p : CallerPc M → Bool) {caller : Option τ → CallerPc M} {t : Option τ}
    {pc : CallerPc M} (h : ∀ u, p (Function.update caller t pc u) = false) : p pc = false := by
  simpa using h t

variable [Fintype τ]

inductive Moves (s : Task M τ) : Action M τ → Task M τ → Prop
  | syncSendMsgTo (t : Option τ) (msg : M) (hout : s.caller t = .outside) :
      Moves s (.syncSendMsgTo t msg)
        { s.setCaller t (.atWaitFind msg) with callLog := s.callLog ++ [msg] }
  | waitFind (t : Option τ) (msg : M) (hat : s.caller t = .atWaitFind msg)
      (hregistered : s.registered = true) : Moves s (.waitFind t) (s.setCaller t (.atLock msg))
  | lock (t : Option τ) (msg : M) (mailbox : Mailbox M τ) (hat : s.caller t = .atLock msg)
      (halive : s.alive = true)
      (h : InteractiveTask.step s.mailbox (.notifyMsg t msg) = some mailbox) :
      Moves s (.lock t) { s.setCaller t (.inNotify msg) with mailbox := mailbox }
  | notExist (t : Option τ) (msg : M) (hat : s.caller t = .atLock msg)
      (hdead : s.alive = false) :
      Moves s (.lock t) { s.setCaller t .outside with notExistLog := s.notExistLog ++ [msg] }
  | syncPut (t : Option τ) (msg : M) (mailbox : Mailbox M τ) (hat : s.caller t = .inNotify msg)
      (h : InteractiveTask.step s.mailbox (.syncPut t) = some mailbox) :
      Moves s (.syncPut t) { s with mailbox := mailbox }
  | write (t : Option τ) (msg : M) (mailbox : Mailbox M τ) (hat : s.caller t = .inNotify msg)
      (h : s.writeEventFd t = some mailbox) :
      Moves s (.write t)
        { s.setCaller t .outside with mailbox := mailbox, okLog := s.okLog ++ [msg] }
  | setStat (stat : Stat) : Moves s (.setStat stat) { s with stat := stat }
  | continues (htop : s.atTop = true) (hstat : s.stat = .running) :
      Moves s .testStat { s with phase := .tested }
  | ends (a : Action M τ) (htop : s.atTop = true)
      (ha : a = .testStat ∧ s.stat ≠ .running ∨ a = .endDispatch) :
      Moves s a { s with phase := .atSetStopped }
  | receive (a : InteractiveTask.Action M τ) (u : Task M τ) (h : s.receiveStep a = some u) :
      Moves s (.receive a) u
  | stop (u : Task M τ) (h : s.stopStep = some u) : Moves s .stop u
  | destroy (hreturned : s.phase = .returned) : Moves s .destroy { s with alive := false }

theorem moves_of_step {s u : Task M τ} {a : Action M τ} (h : step s a = some u) :
    Moves s a u := by
  cases a with
  | syncSendMsgTo t msg =>
      cases hst : s.caller t with
      | outside =>
          simp only [step, hst, Option.ite_none_right_eq_some, Option.some.injEq] at h
          exact h.2 ▸ .syncSendMsgTo t msg hst
      | _ => simp [step, hst] at h
  | waitFind t =>
      cases hst : s.caller t with
      | atWaitFind msg =>
          simp only [step, hst, Option.ite_none_right_eq_some, Option.some.injEq] at h
          exact h.2 ▸ .waitFind t msg hst h.1
      | _ => simp [step, hst] at h
  | lock t =>
      cases hst : s.caller t with
      | atLock msg =>
          simp only [step, hst] at h
          cases halive : s.alive with
          | true =>
              rw [if_pos halive] at h
              obtain ⟨mailbox, hmail, rfl⟩ := Option.map_eq_some_iff.mp h
              exact .lock t msg mailbox hst halive hmail
          | false =>
              rw [if_neg (by simp [halive]), Option.some.injEq] at h
              exact h ▸ .notExist t msg hst halive
      | _ => simp [step, hst] at h
  | syncPut t =>
      cases hst : s.caller t with
      | inNotify msg =>
          simp only [step, hst] at h
          obtain ⟨mailbox, hmail, rfl⟩ := Option.map_eq_some_iff.mp h
          exact .syncPut t msg mailbox hst hmail
      | _ => simp [step, hst] at h
  | write t =>
      cases hst : s.caller t with
      | inNotify msg =>
          simp only [step, hst] at h
          obtain ⟨mailbox, hmail, rfl⟩ := Option.map_eq_some_iff.mp h
          exact .write t msg mailbox hst hmail
      | _ => simp [step, hst] at h
  | setStat stat =>
      obtain rfl := Option.some.inj h
      exact .setStat stat
  | testStat =>
      simp only [step, Option.ite_none_right_eq_some, Option.some.injEq] at h
      obtain ⟨⟨htop, -, -⟩, rfl⟩ := h
      by_cases hstat : s.stat = .running
      · rw [if_pos hstat]
        exact .continues htop hstat
      · rw [if_neg hstat]
        exact .ends .testStat htop (.inl ⟨rfl, hstat⟩)
  | endDispatch =>
      simp only [step, Option.ite_none_right_eq_some, Option.some.injEq] at h
      obtain ⟨⟨htop, -, -⟩, rfl⟩ := h
      exact .ends .endDispatch htop (.inr rfl)
  | receive a => exact .receive a u h
  | stop =>
      simp only [step, Option.ite_none_right_eq_some] at h
      exact .stop u h.2
  | destroy =>
      simp only [step, Option.ite_none_right_eq_some, Option.some.injEq] at h
      obtain ⟨⟨hreturned, -⟩, rfl⟩ := h
      exact .destroy hreturned

/-! ## What one step keeps -/

/-- A call goes on outside `notifyMsg`. -/
theorem Inv.setCaller {s : Task M τ} (hs : Inv s) {t : Option τ} {pc : CallerPc M}
    (hat : (s.caller t).isInNotify = false) (hpc : pc.isInNotify = false) :
    Inv (s.setCaller t pc) := by
  have hidle := (hs.paired t).idle_of_outside hat
  exact { hs with paired := paired_setCaller hs.paired (hidle ▸ paired_idle hpc) }

theorem Inv.step {s u : Task M τ} {a : Action M τ} (hs : Inv s) (h : Task.step s a = some u) :
    Inv u := by
  cases moves_of_step h with
  | syncSendMsgTo t msg hout => exact { hs.setCaller (by simp [hout]) rfl with }
  | waitFind t msg hat hregistered => exact hs.setCaller (by simp [hat]) rfl
  | notExist t msg hat hdead => exact { hs.setCaller (by simp [hat]) rfl with }
  | lock t msg mailbox hat halive hmail =>
      have hrunning : s.phase.ended = false → InteractiveTask.Inv mailbox ∧ s.registered = true :=
        fun hno => ⟨(hs.running hno).1.step hmail, (hs.running hno).2⟩
      cases InteractiveTask.moves_of_step hmail with
      | notifyMsg _ _ hidle hmay =>
          refine ⟨hrunning, hs.valid, hs.delivery, fun hended u hu => ?_, ?_, hs.unregistered⟩
          · by_cases hut : u = t
            · subst hut
              simp at hu
            · exact hs.written hended u (by simpa [Function.update_of_ne hut] using hu)
          · exact paired_update hs.paired rfl
  | syncPut t msg mailbox hat hmail =>
      have hrunning : s.phase.ended = false → InteractiveTask.Inv mailbox ∧ s.registered = true :=
        fun hno => ⟨(hs.running hno).1.step hmail, (hs.running hno).2⟩
      cases InteractiveTask.moves_of_step hmail with
      | syncPut _ msg' hsender hroom =>
          have hqueue := hs.valid.elements_push msg' hroom
          refine ⟨hrunning, hs.valid.push msg', ?_, fun _ _ _ => ?_, ?_, hs.unregistered⟩
          · change s.mailbox.putLog ++ [msg'] = s.mailbox.handledLog ++
              (ConcurrentRingBuffer.push _ msg').elements
            rw [hqueue, hs.delivery, List.append_assoc]
          · change (ConcurrentRingBuffer.push _ msg').elements ≠ []
            rw [hqueue]
            simp
          · have hpaired := @paired_update M τ _ s hs.paired t (s.caller t) .atWrite
              (by rw [hat]; trivial)
            rwa [Function.update_eq_self] at hpaired
  | write t msg mailbox hat hmail =>
      obtain ⟨-, hsender, hqueue, hput, hhandled, hstep⟩ := writeEventFd_spec hmail
      refine ⟨fun hno => ?_, ?_, ?_, fun hended u hu => ?_, ?_, hs.unregistered⟩
      · refine ⟨(hs.running hno).1.step (hstep fun hreturned => ?_), (hs.running hno).2⟩
        have hno : s.phase.ended = false := hno
        rw [hreturned] at hno
        exact Bool.noConfusion hno
      · rw [hqueue]
        exact hs.valid
      · rw [hput, hhandled, hqueue]
        exact hs.delivery
      · rw [hsender] at hu
        rw [hqueue]
        by_cases hut : u = t
        · subst hut
          simp at hu
        · exact hs.written hended u (by simpa [Function.update_of_ne hut] using hu)
      · rw [hsender]
        exact paired_update hs.paired trivial
  | setStat stat => exact { hs with }
  | continues htop hstat =>
      have hno : s.phase.ended = false := by rw [(atTop_spec htop).1]; rfl
      exact { hs with running := fun _ => hs.running hno, written := nofun,
                      unregistered := by simp }
  | ends _ htop _ =>
      have hno : s.phase.ended = false := by rw [(atTop_spec htop).1]; rfl
      have hpair := (hs.running hno).1.pairing
      refine { hs with running := nofun, written := fun _ t hat hempty => ?_,
                       unregistered := by simp }
      have hat : s.mailbox.sender t = .atWrite := hat
      have hempty : s.mailbox.recvMsgQueue.elements = [] := hempty
      have hpos : 0 < putNotWritten s.mailbox := count_pos_iff.mpr ⟨t, by rw [hat]; rfl⟩
      rw [hempty, List.length_nil] at hpair
      omega
  | receive _ _ hreceive =>
      obtain ⟨mailbox, phase, rfl, hreceives, hmail, hno, hno'⟩ := receiveStep_spec hreceive
      obtain ⟨hinv, hregistered⟩ := hs.running hno
      have hinv' := hinv.step hmail
      refine ⟨fun _ => ⟨hinv', hregistered⟩, hinv'.valid, hinv'.delivery, fun hended => ?_, ?_, ?_⟩
      · exact absurd (hended.symm.trans hno') (by decide)
      · rw [(frame_of_receives hreceives hmail).1]
        exact hs.paired
      · rintro (rfl | rfl)
        · exact Bool.noConfusion hno'
        · exact Bool.noConfusion hno'
  | stop _ hstop =>
      cases stops_of_stopStep hstop with
      | setStopped hat =>
          exact { hs with running := nofun, written := fun _ => hs.written (by rw [hat]; rfl),
                          unregistered := by simp }
      | onStop hat =>
          exact { hs with running := nofun, written := fun _ => hs.written (by rw [hat]; rfl),
                          unregistered := by simp }
      | unregister hat =>
          exact { hs with running := nofun, written := fun _ => hs.written (by rw [hat]; rfl),
                          unregistered := fun _ => rfl }
      | close hat =>
          exact { hs with running := nofun, written := fun _ => hs.written (by rw [hat]; rfl),
                          unregistered := fun _ => hs.unregistered (.inl hat) }
  | destroy hreturned => exact { hs with }

/-! ## Every call is accounted for -/

/-- The messages put or about to be put are those of the calls that have
returned `RECEIVER_RECV_OK` and of the calls in `notifyMsg`. -/
def Answered (okLog putLog : List M) (caller : Option τ → CallerPc M)
    (sender : Option τ → SenderPc M) : Prop :=
  (okLog : Multiset M) + total CallerPc.notified caller =
    putLog + total SenderPc.unput sender

/-- A call has returned one of the two results or is on its way. -/
def Accounted (callLog okLog notExistLog : List M) (caller : Option τ → CallerPc M) : Prop :=
  (callLog : Multiset M) = okLog + notExistLog + total CallerPc.carried caller

section Accounts

variable {okLog putLog callLog notExistLog : List M} {caller : Option τ → CallerPc M}
  {sender : Option τ → SenderPc M} {t : Option τ} {pc : CallerPc M} {msg : M}

theorem Answered.setCaller (h : Answered okLog putLog caller sender)
    (hpc : pc.notified = (caller t).notified) :
    Answered okLog putLog (Function.update caller t pc) sender := by
  have hcaller := total_update CallerPc.notified caller t pc
  rw [hpc, add_left_inj] at hcaller
  rw [Answered, hcaller, h]

theorem Answered.lock (h : Answered okLog putLog caller sender) (hat : caller t = .atLock msg)
    (hidle : sender t = .idle) :
    Answered okLog putLog (Function.update caller t (.inNotify msg))
      (Function.update sender t (.atSyncPut msg)) := by
  have hcaller := total_update CallerPc.notified caller t (.inNotify msg)
  have hsender := total_update SenderPc.unput sender t (.atSyncPut msg)
  simp only [hat, hidle, CallerPc.notified, SenderPc.unput, add_zero] at hcaller hsender
  rw [Answered, hcaller, hsender, ← add_assoc, ← add_assoc, h]

theorem Answered.syncPut (h : Answered okLog putLog caller sender)
    (hat : sender t = .atSyncPut msg) :
    Answered okLog (putLog ++ [msg]) caller (Function.update sender t .atWrite) := by
  have hsender := total_update SenderPc.unput sender t .atWrite
  simp only [hat, SenderPc.unput, add_zero] at hsender
  rw [Answered, ← Multiset.coe_add, Multiset.coe_singleton, add_assoc,
    add_comm ({msg} : Multiset M), hsender, h]

theorem Answered.write (h : Answered okLog putLog caller sender) (hat : caller t = .inNotify msg)
    (hwrite : sender t = .atWrite) :
    Answered (okLog ++ [msg]) putLog (Function.update caller t .outside)
      (Function.update sender t .idle) := by
  have hcaller := total_update CallerPc.notified caller t .outside
  have hsender := total_update SenderPc.unput sender t .idle
  simp only [hat, hwrite, CallerPc.notified, SenderPc.unput, add_zero] at hcaller hsender
  rw [Answered, ← Multiset.coe_add, Multiset.coe_singleton, add_assoc,
    add_comm ({msg} : Multiset M), hcaller, hsender, h]

theorem Accounted.setCaller (h : Accounted callLog okLog notExistLog caller)
    (hpc : pc.carried = (caller t).carried) :
    Accounted callLog okLog notExistLog (Function.update caller t pc) := by
  have hcaller := total_update CallerPc.carried caller t pc
  rw [hpc, add_left_inj] at hcaller
  rw [Accounted, hcaller, h]

theorem Accounted.call (h : Accounted callLog okLog notExistLog caller)
    (hat : caller t = .outside) :
    Accounted (callLog ++ [msg]) okLog notExistLog
      (Function.update caller t (.atWaitFind msg)) := by
  have hcaller := total_update CallerPc.carried caller t (.atWaitFind msg)
  simp only [hat, CallerPc.carried, add_zero] at hcaller
  rw [Accounted, hcaller, ← Multiset.coe_add, Multiset.coe_singleton, h, add_assoc]

theorem total_carried_outside (hat : (caller t).carried = {msg}) :
    total CallerPc.carried (Function.update caller t .outside) + {msg} =
      total CallerPc.carried caller := by
  have hcaller := total_update CallerPc.carried caller t .outside
  rw [hat] at hcaller
  simpa only [CallerPc.carried, add_zero] using hcaller

theorem Accounted.recvOk (h : Accounted callLog okLog notExistLog caller)
    (hat : (caller t).carried = {msg}) :
    Accounted callLog (okLog ++ [msg]) notExistLog (Function.update caller t .outside) := by
  rw [Accounted, h, ← total_carried_outside hat, ← Multiset.coe_add, Multiset.coe_singleton]
  abel

theorem Accounted.notExist (h : Accounted callLog okLog notExistLog caller)
    (hat : (caller t).carried = {msg}) :
    Accounted callLog okLog (notExistLog ++ [msg]) (Function.update caller t .outside) := by
  rw [Accounted, h, ← total_carried_outside hat, ← Multiset.coe_add, Multiset.coe_singleton]
  abel

end Accounts

structure Accounts (s : Task M τ) : Prop where
  answered : Answered s.okLog s.mailbox.putLog s.caller s.mailbox.sender
  accounted : Accounted s.callLog s.okLog s.notExistLog s.caller

theorem Accounts.step {s u : Task M τ} {a : Action M τ} (hs : Accounts s)
    (h : Task.step s a = some u) : Accounts u := by
  obtain ⟨hanswered, haccounted⟩ := hs
  cases moves_of_step h with
  | syncSendMsgTo t msg hout =>
      exact ⟨hanswered.setCaller (by rw [hout]; rfl), haccounted.call hout⟩
  | waitFind t msg hat hregistered =>
      exact ⟨hanswered.setCaller (by rw [hat]; rfl), haccounted.setCaller (by rw [hat]; rfl)⟩
  | notExist t msg hat hdead =>
      exact ⟨hanswered.setCaller (by rw [hat]; rfl), haccounted.notExist (by rw [hat]; rfl)⟩
  | lock t msg mailbox hat halive hmail =>
      cases InteractiveTask.moves_of_step hmail with
      | notifyMsg _ _ hidle hmay =>
          exact ⟨hanswered.lock hat hidle, haccounted.setCaller (by rw [hat]; rfl)⟩
  | syncPut t msg mailbox hat hmail =>
      cases InteractiveTask.moves_of_step hmail with
      | syncPut _ msg' hsender hroom => exact ⟨hanswered.syncPut hsender, haccounted⟩
  | write t msg mailbox hat hmail =>
      obtain ⟨hwrite, hsender, -, hput, -, -⟩ := writeEventFd_spec hmail
      refine ⟨?_, haccounted.recvOk (by rw [hat]; rfl)⟩
      have hnext := hanswered.write hat hwrite
      rw [← hsender, ← hput] at hnext
      exact hnext
  | receive _ _ hreceive =>
      obtain ⟨mailbox, phase, rfl, hreceives, hmail, -, -⟩ := receiveStep_spec hreceive
      obtain ⟨hsender, hput⟩ := frame_of_receives hreceives hmail
      rw [← hsender, ← hput] at hanswered
      exact ⟨hanswered, haccounted⟩
  | stop _ hstop => cases stops_of_stopStep hstop <;> exact ⟨hanswered, haccounted⟩
  | _ => exact ⟨hanswered, haccounted⟩

/-! ## The steps that lose nothing -/

/-- Nothing is in the queue or on its way there. -/
def Quiet (s : Task M τ) : Prop :=
  s.mailbox.recvMsgQueue.elements = [] ∧ ∀ t, (s.caller t).isInNotify = false

/-- The condition on a step: the loop ends when the mailbox is quiet, no reference
is taken after that unless the object is gone, and the name is there for every
call that looks it up. -/
def Safe (s : Task M τ) : Action M τ → Prop
  | .syncSendMsgTo _ _ => s.registered = true
  | .lock _ => s.phase.ended = false ∨ s.alive = false
  | .testStat => s.stat = .running ∨ s.Quiet
  | .endDispatch => s.Quiet
  | .stop => s.phase = .atUnregister → ∀ t, (s.caller t).isAtWaitFind = false
  | _ => True

/-- The messages that are on their way will be handled or reported. -/
structure Settled (s : Task M τ) : Prop where
  quiet : s.phase.ended = true → s.Quiet
  found : s.registered = false → ∀ t, (s.caller t).isAtWaitFind = false

omit [DecidableEq τ] in
theorem settled_of_running {s : Task M τ} (hs : Inv s) (hno : s.phase.ended = false) :
    Settled s where
  quiet hended := absurd (hended.symm.trans hno) (by decide)
  found hunregistered := absurd (hunregistered.symm.trans (hs.running hno).2) (by decide)

omit [Fintype τ] in
theorem quiet_setCaller {s : Task M τ} {t : Option τ} {pc : CallerPc M}
    (hat : (s.caller t).isInNotify = false) (hpc : pc.isInNotify = false) :
    (s.setCaller t pc).Quiet ↔ s.Quiet :=
  and_congr_right fun _ => ⟨fun h => forall_of_update h hat, fun h => forall_update h hpc⟩

/-- What has been lost stays lost. -/
theorem Settled.of_step {s u : Task M τ} {a : Action M τ} (hs : Inv s)
    (h : Task.step s a = some u) (hu : Settled u) : Settled s := by
  cases moves_of_step h with
  | syncSendMsgTo t msg hout =>
      refine ⟨fun hended => ?_, fun hno => forall_of_update (hu.found hno) (by rw [hout]; rfl)⟩
      exact (quiet_setCaller (by simp [hout]) rfl).mp (hu.quiet hended)
  | waitFind t msg hat hregistered =>
      refine ⟨fun hended => ?_, fun hno => absurd (hno.symm.trans hregistered) (by decide)⟩
      exact (quiet_setCaller (by simp [hat]) rfl).mp (hu.quiet hended)
  | notExist t msg hat hdead =>
      refine ⟨fun hended => ?_, fun hno => forall_of_update (hu.found hno) (by rw [hat]; rfl)⟩
      exact (quiet_setCaller (by simp [hat]) rfl).mp (hu.quiet hended)
  | lock t msg mailbox hat halive hmail =>
      refine ⟨fun hended => ?_, fun hno => forall_of_update (hu.found hno) (by rw [hat]; rfl)⟩
      have hfalse : (CallerPc.inNotify msg).isInNotify = false :=
        of_update CallerPc.isInNotify (hu.quiet hended).2
      exact Bool.noConfusion hfalse
  | syncPut t msg mailbox hat hmail =>
      cases InteractiveTask.moves_of_step hmail with
      | syncPut _ msg' hsender hroom =>
          refine ⟨fun hended => ?_, hu.found⟩
          have hempty := (hu.quiet hended).1
          change (ConcurrentRingBuffer.push _ msg').elements = [] at hempty
          rw [hs.valid.elements_push msg' hroom] at hempty
          simp at hempty
  | write t msg mailbox hat hmail =>
      obtain ⟨hwrite, -, hqueue, -, -, -⟩ := writeEventFd_spec hmail
      refine ⟨fun hended => ?_, fun hno => forall_of_update (hu.found hno) (by rw [hat]; rfl)⟩
      have hempty : mailbox.recvMsgQueue.elements = [] := (hu.quiet hended).1
      rw [hqueue] at hempty
      exact absurd hempty (hs.written hended t hwrite)
  | setStat stat => exact ⟨hu.quiet, hu.found⟩
  | continues htop hstat =>
      exact settled_of_running hs (by rw [(atTop_spec htop).1]; rfl)
  | ends _ htop _ => exact settled_of_running hs (by rw [(atTop_spec htop).1]; rfl)
  | receive _ _ hreceive =>
      obtain ⟨-, -, -, -, -, hno, -⟩ := receiveStep_spec hreceive
      exact settled_of_running hs hno
  | stop _ hstop =>
      cases stops_of_stopStep hstop with
      | unregister hat => exact ⟨fun _ => hu.quiet rfl, fun _ => hu.found rfl⟩
      | _ => exact ⟨fun _ => hu.quiet rfl, hu.found⟩
  | destroy hreturned => exact ⟨hu.quiet, hu.found⟩

/-- Nothing is lost by exactly the steps that meet the condition. -/
theorem Settled.step_iff {s u : Task M τ} {a : Action M τ} (hs : Inv s) (hgood : Settled s)
    (h : Task.step s a = some u) : Safe s a ↔ Settled u := by
  have hrunning : ∀ {t : Option τ} {msg : M}, s.caller t = .inNotify msg →
      s.phase.ended = false := by
    intro t msg hat
    by_contra hended
    have hfalse := (hgood.quiet (by simpa using hended)).2 t
    rw [hat] at hfalse
    exact Bool.noConfusion hfalse
  cases moves_of_step h with
  | syncSendMsgTo t msg hout =>
      constructor
      · intro hregistered
        have hregistered : s.registered = true := hregistered
        refine ⟨fun hended => ?_, fun hno => absurd (hno.symm.trans hregistered) (by decide)⟩
        exact (quiet_setCaller (by simp [hout]) rfl).mpr (hgood.quiet hended)
      · intro hu
        by_contra hno
        have hno : s.registered = false := by simpa [Safe] using hno
        have hfalse : (CallerPc.atWaitFind msg).isAtWaitFind = false :=
          of_update CallerPc.isAtWaitFind (hu.found hno)
        exact Bool.noConfusion hfalse
  | waitFind t msg hat hregistered =>
      refine ⟨fun _ => ⟨fun hended => ?_, fun hno => ?_⟩, fun _ => trivial⟩
      · exact (quiet_setCaller (by simp [hat]) rfl).mpr (hgood.quiet hended)
      · exact absurd (hno.symm.trans hregistered) (by decide)
  | notExist t msg hat hdead =>
      refine ⟨fun _ => ⟨fun hended => ?_, fun hno => ?_⟩, fun _ => .inr hdead⟩
      · exact (quiet_setCaller (by simp [hat]) rfl).mpr (hgood.quiet hended)
      · exact forall_update (hgood.found hno) rfl
  | lock t msg mailbox hat halive hmail =>
      constructor
      · rintro (hno | hdead)
        · exact settled_of_running (hs.step h) hno
        · simp [halive] at hdead
      · intro hu
        by_contra hnot
        have hended : s.phase.ended = true := by
          simp only [Safe, not_or, Bool.not_eq_false] at hnot
          exact hnot.1
        have hfalse : (CallerPc.inNotify msg).isInNotify = false :=
          of_update CallerPc.isInNotify (hu.quiet hended).2
        exact Bool.noConfusion hfalse
  | syncPut t msg mailbox hat hmail =>
      exact ⟨fun _ => settled_of_running (hs.step h) (hrunning hat), fun _ => trivial⟩
  | write t msg mailbox hat hmail =>
      exact ⟨fun _ => settled_of_running (hs.step h) (hrunning hat), fun _ => trivial⟩
  | setStat stat => exact ⟨fun _ => ⟨hgood.quiet, hgood.found⟩, fun _ => trivial⟩
  | continues htop hstat => exact ⟨fun _ => settled_of_running (hs.step h) rfl, fun _ => .inl hstat⟩
  | ends _ htop ha =>
      have hno : s.phase.ended = false := by rw [(atTop_spec htop).1]; rfl
      have hsettled : s.Quiet ↔ Settled { s with phase := .atSetStopped } :=
        ⟨fun hquiet => ⟨fun _ => hquiet, fun hunregistered =>
          absurd (hunregistered.symm.trans (hs.running hno).2) (by decide)⟩, fun hu => hu.quiet rfl⟩
      rcases ha with ⟨rfl, hstat⟩ | rfl
      · rw [← hsettled, Safe]
        exact ⟨fun hsafe => hsafe.resolve_left hstat, .inr⟩
      · exact hsettled
  | receive _ _ hreceive =>
      obtain ⟨mailbox, phase, rfl, -, -, -, hno⟩ := receiveStep_spec hreceive
      exact ⟨fun _ => settled_of_running (hs.step h) hno, fun _ => trivial⟩
  | stop _ hstop =>
      cases stops_of_stopStep hstop with
      | setStopped hat =>
          exact ⟨fun _ => ⟨fun _ => hgood.quiet (by rw [hat]; rfl), hgood.found⟩,
            fun _ hphase => by simp [hat] at hphase⟩
      | onStop hat =>
          exact ⟨fun _ => ⟨fun _ => hgood.quiet (by rw [hat]; rfl), hgood.found⟩,
            fun _ hphase => by simp [hat] at hphase⟩
      | unregister hat =>
          exact ⟨fun hsafe => ⟨fun _ => hgood.quiet (by rw [hat]; rfl), fun _ => hsafe hat⟩,
            fun hu _ => hu.found rfl⟩
      | close hat =>
          exact ⟨fun _ => ⟨fun _ => hgood.quiet (by rw [hat]; rfl), hgood.found⟩,
            fun _ hphase => by simp [hat] at hphase⟩
  | destroy hreturned => exact ⟨fun _ => ⟨hgood.quiet, hgood.found⟩, fun _ => trivial⟩

/-! ## When start() has returned -/

/-- What is said once `start` has returned: all that was put has been handled,
`RECEIVER_RECV_OK` has been returned for the messages handled, the other calls have
returned `RECEIVER_NOT_EXIST`, and a call that is still on its way has put
nothing and waits for nothing. -/
structure NothingLost (s : Task M τ) : Prop where
  handled : s.mailbox.handledLog = s.mailbox.putLog
  answered : s.okLog.Perm s.mailbox.handledLog
  accounted : (s.callLog : Multiset M) =
    s.mailbox.handledLog + s.notExistLog + total CallerPc.carried s.caller
  pending : ∀ t, s.caller t = .outside ∨ ∃ msg, s.caller t = .atLock msg

omit [DecidableEq τ] in
theorem answered_of_quiet {s : Task M τ} (hs : Inv s) (haccounts : Accounts s)
    (hquiet : ∀ t, (s.caller t).isInNotify = false) : s.okLog.Perm s.mailbox.putLog := by
  have hcaller : total CallerPc.notified s.caller = 0 := by
    refine Finset.sum_eq_zero fun t _ => ?_
    cases hat : s.caller t with
    | inNotify msg => simpa [hat] using hquiet t
    | _ => rfl
  have hsender : total SenderPc.unput s.mailbox.sender = 0 := by
    refine Finset.sum_eq_zero fun t _ => ?_
    rw [(hs.paired t).idle_of_outside (hquiet t)]
    rfl
  have hanswered := haccounts.answered
  rw [Answered, hcaller, hsender, add_zero, add_zero] at hanswered
  exact Multiset.coe_eq_coe.mp hanswered

omit [DecidableEq τ] in
theorem nothingLost_iff_settled {s : Task M τ} (hs : Inv s) (haccounts : Accounts s)
    (hreturned : s.phase = .returned) : NothingLost s ↔ Settled s := by
  have hended : s.phase.ended = true := by rw [hreturned]; rfl
  have hdelivery := hs.delivery
  constructor
  · rintro ⟨hhandled, -, -, hpending⟩
    rw [hhandled, List.self_eq_append_right] at hdelivery
    refine ⟨fun _ => ⟨hdelivery, fun t => ?_⟩, fun _ t => ?_⟩
    · rcases hpending t with hat | ⟨msg, hat⟩ <;> rw [hat] <;> rfl
    · rcases hpending t with hat | ⟨msg, hat⟩ <;> rw [hat] <;> rfl
  · intro hsettled
    obtain ⟨hempty, hquiet⟩ := hsettled.quiet hended
    have hfound := hsettled.found (hs.unregistered (.inr hreturned))
    rw [hempty, List.append_nil] at hdelivery
    have hanswered := answered_of_quiet hs haccounts hquiet
    rw [hdelivery] at hanswered
    refine ⟨hdelivery.symm, hanswered, ?_, fun t => ?_⟩
    · rw [haccounts.accounted, Multiset.coe_eq_coe.mpr hanswered]
    · cases hat : s.caller t with
      | outside => exact .inl rfl
      | atLock msg => exact .inr ⟨msg, rfl⟩
      | atWaitFind msg => simpa [hat] using hfound t
      | inNotify msg => simpa [hat] using hquiet t

omit [DecidableEq τ] in
theorem accounts_start (hasReactor : Bool) (size : ℕ) (buff : ℕ → M) :
    Accounts (start hasReactor size buff : Task M τ) := by
  have hcaller : total CallerPc.notified (fun _ : Option τ => (.outside : CallerPc M)) = 0 :=
    Finset.sum_eq_zero fun _ _ => rfl
  have hcarried : total CallerPc.carried (fun _ : Option τ => (.outside : CallerPc M)) = 0 :=
    Finset.sum_eq_zero fun _ _ => rfl
  have hsender : total SenderPc.unput (fun _ : Option τ => (.idle : SenderPc M)) = 0 :=
    Finset.sum_eq_zero fun _ _ => rfl
  constructor
  · simp only [start, InteractiveTask.start, Answered, hcaller, hsender]
  · simp only [start, Accounted, hcarried, Multiset.coe_nil, add_zero]

/-- A task whose `start` has returned has lost nothing exactly when every step of
the run met the condition. -/
theorem nothingLost_iff_safe (hasReactor : Bool) {size : ℕ} (hsize : 1 ≤ size) (buff : ℕ → M)
    {as : List (Action M τ)} {s : Task M τ}
    (hrun : Transition.run step (start hasReactor size buff) as = some s)
    (hreturned : s.phase = .returned) :
    NothingLost s ↔ Transition.Along Safe step (start hasReactor size buff) as := by
  have hs : Inv s :=
    Transition.run_invariant (fun _ _ _ hs h => hs.step h) (inv_start hasReactor hsize buff) hrun
  have haccounts : Accounts s := Transition.run_invariant (fun _ _ _ hs h => hs.step h)
    (accounts_start hasReactor size buff) hrun
  have hsafe := Transition.along_iff_final (fun _ _ _ hs h => Inv.step hs h)
    (fun _ _ _ hs h hu => hu.of_step hs h) (fun _ _ _ hs hgood h => hgood.step_iff hs h)
    (inv_start hasReactor hsize buff) (settled_of_running (inv_start hasReactor hsize buff) rfl)
    hrun
  rw [nothingLost_iff_settled hs haccounts hreturned, hsafe]

instance safe_decidable (s : Task M τ) : ∀ a, Decidable (Safe s a)
  | .syncSendMsgTo _ _ => inferInstanceAs (Decidable (_ = _))
  | .lock _ => inferInstanceAs (Decidable (_ ∨ _))
  | .testStat => inferInstanceAs (Decidable (_ ∨ _ ∧ _))
  | .endDispatch => inferInstanceAs (Decidable (_ ∧ _))
  | .stop => inferInstanceAs (Decidable (_ → _))
  | .waitFind _ => isTrue trivial
  | .syncPut _ => isTrue trivial
  | .write _ => isTrue trivial
  | .setStat _ => isTrue trivial
  | .receive _ => isTrue trivial
  | .destroy => isTrue trivial

end Steps

/-- The second message finds the task destroyed. -/
def lateCaller : List (Action ℕ (Fin 2)) :=
  [.syncSendMsgTo (some 0) 1, .waitFind (some 0), .lock (some 0), .syncPut (some 0),
    .write (some 0), .syncSendMsgTo (some 1) 2, .waitFind (some 1), .testStat, .receive .read,
    .setStat .stopping, .receive .syncGet, .receive .finish, .testStat, .stop, .stop, .stop, .stop,
    .destroy, .lock (some 1)]

theorem nothingLost_iff_safe_lateCaller :
    ∃ s : Task ℕ (Fin 2),
      Transition.run step (start false 3 fun _ => 0) lateCaller = some s ∧
      s.okLog = [1] ∧ s.notExistLog = [2] ∧ NothingLost s := by
  refine ⟨_, rfl, rfl, rfl, ?_⟩
  exact (@nothingLost_iff_safe ℕ (Fin 2) _ _ false 3 (by decide) (fun _ => 0) lateCaller _ rfl
    rfl).mpr (by decide)

/-- Another thread sets the state between the answer to the sender and the test. -/
def stoppedFirst : List (Action ℕ (Fin 1)) :=
  [.syncSendMsgTo (some 0) 1, .waitFind (some 0), .lock (some 0), .syncPut (some 0),
    .write (some 0), .setStat .stopping, .testStat, .stop, .stop, .stop, .stop]

theorem stoppedFirst_lost :
    ∃ s : Task ℕ (Fin 1),
      Transition.run step (start false 50000 fun _ => 0) stoppedFirst = some s ∧
      s.phase = .returned ∧ s.okLog = [1] ∧ s.mailbox.handledLog = [] ∧ ¬ NothingLost s := by
  refine ⟨_, rfl, rfl, rfl, rfl, fun hlost => ?_⟩
  have hlength := hlost.answered.length_eq
  exact absurd hlength (by decide)

end Task

end InteractiveTask

end Banana
