import Banana.Examples.MapReduceCircularWait
import Banana.Examples.MapReduceRefinement

/-!
# Progress of the server

Between two events from outside, the server does finitely many steps, and it
comes to rest only with nothing left to do, or in the circular wait.
-/

namespace Banana.MapReduceServer

open Transition Threads

variable {κ τ : Type*}

/-- A step of the server's own threads; the others are of its peers. -/
def isInternal : Action κ τ → Bool
  | .accept _ | .readable _ _ | .writable _ _ => false
  | _ => true

/-! ## At rest -/

section Rest

variable [DecidableEq κ] [DecidableEq τ] {files : FileSystem} {s : State κ τ}

def internalStep (files : FileSystem) (s : State κ τ) (a : Action κ τ) : Option (State κ τ) :=
  if isInternal a then step files s a else none

def AtRest (files : FileSystem) (s : State κ τ) : Prop := ∀ a, internalStep files s a = none

structure Quiet (s : State κ τ) : Prop where
  service : s.service = .atLoop
  tasks : s.taskQueue.elements = []
  running : ∀ t, s.running t = none
  sender : ∀ sender, s.mailbox.sender sender = .idle
  messages : s.mailbox.recvMsgQueue.elements = []

theorem AtRest.step_eq_none (h : AtRest files s) {a : Action κ τ} (ha : isInternal a = true) :
    step files s a = none := by
  have hnone := h a
  rwa [internalStep, if_pos ha] at hnone

theorem AtRest.sender_ne_atWrite (hrest : AtRest files s) (sender : Option τ) :
    s.mailbox.sender (some sender) ≠ .atWrite := by
  intro hat
  have hwrite := hrest.step_eq_none (a := .write sender) rfl
  simp [step, mailboxStep, InteractiveTask.step, hat] at hwrite

theorem AtRest.mailboxFull (hrest : AtRest files s) {sender : Option τ} {msg : Message κ}
    (hat : s.mailbox.sender (some sender) = .atSyncPut msg) :
    s.mailbox.recvMsgQueue.next s.mailbox.recvMsgQueue.head = s.mailbox.recvMsgQueue.tail := by
  by_contra hroom
  have hput := hrest.step_eq_none (a := .put sender) rfl
  simp [step, mailboxStep, InteractiveTask.step, hat, ConcurrentRingBuffer.syncPut, hroom] at hput

theorem AtRest.noTasks (hrest : AtRest files s) {t : τ} (hrunning : s.running t = none)
    (hidle : s.mailbox.sender (some (some t)) = .idle) : s.taskQueue.tail = s.taskQueue.head := by
  by_contra hsome
  have htake := hrest.step_eq_none (a := .take t) rfl
  simp [step, hrunning, hidle, ConcurrentRingBuffer.syncGet, hsome] at htake

omit [DecidableEq τ] in
theorem Open.loopHead {c d : κ} (hopen : Open s c) {conn : MapReduceConnection}
    (paths : List (List UInt8)) (hmap : d = c → conn.inMap = true) :
    Open (MapReduceServer.loopHead s d conn paths) c := by
  cases paths with
  | nil => exact @Open.set _ _ _ s c d conn.recvBodyDone hopen hmap
  | cons path rest => exact @Open.set _ _ _ s c d conn hopen hmap

theorem Open.internal {t : State κ τ} {a : Action κ τ} {c : κ} (hopen : Open s c)
    (h : step files s a = some t) (hinternal : isInternal a = true) : Open t c := by
  cases moves_of_step h with
  | receives d r conn stream hconn hloop hpending hmay hout => simp [isInternal] at hinternal
  | received d r conn stream retRecvStat vecBytes hconn hloop hpending hmay hout =>
      simp [isInternal] at hinternal
  | sends d r conn stream hconn hloop hpending hmay hout => simp [isInternal] at hinternal
  | sent d r conn stream retSendStat hconn hloop hpending hmay hout =>
      simp [isInternal] at hinternal
  | count d rest conn hservice hconn =>
      apply hopen.loopHead rest
      rintro rfl
      exact hopen conn hconn
  | get mailbox msg hmail hmsg =>
      have hget : Open { s with mailbox := mailbox } c := hopen
      have hhandles := handles_onMessage { s with mailbox := mailbox } msg
      generalize onMessage { s with mailbox := mailbox } msg = u at hhandles ⊢
      cases hhandles with
      | starts d hconn =>
          apply hget.set
          rintro -
          rw [MapReduceConnection.start, MapReduceConnection.startReadOrWriteInService_eq]
      | delivers d conn maxNum hconn hmap =>
          exact hget.set fun _ => (conn.onMessage_spec maxNum).1.trans hmap
      | _ => exact hget
  | _ => exact hopen

end Rest

/-! ## Finitely many steps -/

/-- Steps left to the end of the callback, of the tasks it will post too. -/
def ServicePc.work : ServicePc κ → ℕ
  | .atLoop => 0
  | .atPost _ _ rest => 10 * (rest.length + 1)
  | .atCount _ rest => 10 * rest.length + 1

def runningWork : Option (MapTask κ) → ℕ
  | none => 0
  | some _ => 7

theorem loopHead_work [DecidableEq κ] (s : State κ τ) (c : κ) (conn : MapReduceConnection)
    (paths : List (List UInt8)) : (loopHead s c conn paths).service.work = 10 * paths.length := by
  cases paths <;> simp [loopHead, ServicePc.work]

section Work

variable [Fintype τ]

def work (s : State κ τ) : ℕ :=
  s.service.work + 8 * s.taskQueue.elements.length + total runningWork s.running +
    InteractiveTask.work s.mailbox

variable [DecidableEq τ] {mailboxSize taskQueueSize : ℕ} {s t : State κ τ} {a : Action κ τ}

variable [DecidableEq κ] {files : FileSystem}

theorem Inv.work_step (hs : Inv mailboxSize taskQueueSize s)
    (h : MapReduceServer.step files s a = some t) (hinternal : isInternal a = true) :
    MapReduceServer.work t < MapReduceServer.work s := by
  cases moves_of_step h with
  | post c path rest hservice hroom =>
      simp only [MapReduceServer.work, hservice, hs.taskQueue.elements_push ⟨c, path⟩ hroom,
        List.length_append, List.length_singleton, ServicePc.work]
      omega
  | count c rest conn hservice hconn =>
      obtain ⟨hmailbox, htaskQueue, hrunning⟩ := loopHead_threads s c conn.countTask rest
      have hold : s.service.work = 10 * rest.length + 1 := by rw [hservice, ServicePc.work]
      have hnew := loopHead_work s c conn.countTask rest
      simp only [MapReduceServer.work, hmailbox, htaskQueue, hrunning]
      omega
  | take t hfree hidle hsome =>
      have hsum := total_update runningWork s.running t
        (some (s.taskQueue.buff s.taskQueue.tail))
      simp only [hfree, runningWork] at hsum
      simp only [MapReduceServer.work, hs.taskQueue.elements_pop hsome, List.length_cons]
      omega
  | lockFails t task conn hrunning hconn hgone =>
      have hsum := total_update runningWork s.running t none
      simp only [hrunning, runningWork] at hsum
      simp only [MapReduceServer.work]
      omega
  | compute t junk task file mailbox hrunning hfile hmail =>
      have hsum := total_update runningWork s.running t none
      simp only [hrunning, runningWork] at hsum
      have hmails := hs.mailbox.work_step hmail
      simp only [InteractiveTask.sends] at hmails
      simp only [MapReduceServer.work]
      omega
  | mails a b mailbox hb hloop hmail =>
      have hmails := hs.mailbox.work_step hmail
      have hnone : InteractiveTask.sends (fun _ => 7) b = 0 := by
        cases a <;> simp only [mailboxAction, Option.some.injEq, reduceCtorEq] at hb <;> subst b <;>
          rfl
      simp only [MapReduceServer.work]
      omega
  | get mailbox msg hmail hmsg =>
      obtain ⟨hmailbox, htaskQueue, hrunning, hservice, -⟩ :=
        onMessage_threads { s with mailbox := mailbox } msg
      have hmails := hs.mailbox.work_step hmail
      simp only [InteractiveTask.sends] at hmails
      simp only [MapReduceServer.work, hmailbox, htaskQueue, hrunning, hservice]
      omega
  -- the steps of the peers
  | _ => simp [isInternal] at hinternal

theorem Inv.receiver_of_atRest (hs : Inv mailboxSize taskQueueSize s) (hrest : AtRest files s) :
    s.mailbox.receiver = .inLoop := by
  cases hreceiver : s.mailbox.receiver with
  | inLoop => rfl
  | atRead =>
      have hread := hrest.step_eq_none (a := .read) rfl
      have hsome := EventFd.read_isSome (hs.mailbox.readable hreceiver)
      simp [MapReduceServer.step, mailboxStep, InteractiveTask.step, hreceiver, hs.own,
        InteractiveTask.readEventFd] at hread
      simp [hread] at hsome
  | atSyncGet v =>
      have hget := hrest.step_eq_none (a := .get) rfl
      obtain ⟨msg, rest, -, hcall⟩ := hs.mailbox.syncGet_finishes hreceiver
      have hv := hs.mailbox.readOne v hreceiver
      simp [MapReduceServer.step, InteractiveTask.step, hreceiver, hv, hcall] at hget
  | inOnMessage msg =>
      have hfinish := hrest.step_eq_none (a := .finish) rfl
      simp [MapReduceServer.step, mailboxStep, InteractiveTask.step, hreceiver, hs.own] at hfinish

/-- Workers rest without a task, unless the file is missing. -/
theorem Inv.running_of_atRest (hs : Inv mailboxSize taskQueueSize s) (hrest : AtRest files s)
    (hfiles : ∀ t task, s.running t = some task → files.content task.filePath ≠ none) (t : τ) :
    s.running t = none := by
  cases hrunning : s.running t with
  | none => rfl
  | some task =>
      have hsome := hs.compute_isSome hrunning (hfiles t task hrunning) 0
      rw [hrest.step_eq_none rfl] at hsome
      exact absurd hsome (by simp)

/-- A service that rests in its callback is blocked, and so are the workers. -/
theorem Inv.circularWait_of_atRest [Nonempty τ] (hs : Inv mailboxSize taskQueueSize s)
    (htaskQueue : 2 ≤ taskQueueSize) (hrest : AtRest files s)
    (hrunning : ∀ t, s.running t = none) (hpost : s.service.isAtPost = true) : CircularWait s := by
  have hfull : s.taskQueue.next s.taskQueue.head = s.taskQueue.tail := by
    by_contra hroom
    have hput := hrest.step_eq_none (a := .post) rfl
    cases hservice : s.service with
    | atLoop => simp [hservice] at hpost
    | atCount c rest => simp [hservice] at hpost
    | atPost c path rest =>
        simp [MapReduceServer.step, hservice, ConcurrentRingBuffer.syncPut, hroom] at hput
  have hsome : s.taskQueue.tail ≠ s.taskQueue.head := by
    rw [Ne, hs.taskQueue.empty_iff]
    intro hempty
    rw [hs.taskQueue.full_iff, hempty, List.length_nil, hs.taskQueueSize] at hfull
    omega
  have hsending : ∀ t, ∃ msg, s.mailbox.sender (some (some t)) = .atSyncPut msg := by
    intro t
    cases hat : s.mailbox.sender (some (some t)) with
    | atSyncPut msg => exact ⟨msg, rfl⟩
    | atWrite => exact absurd hat (hrest.sender_ne_atWrite (some t))
    | idle => exact absurd (hrest.noTasks (hrunning t) hat) hsome
  obtain ⟨msg, hmsg⟩ := hsending (Classical.arbitrary τ)
  exact ⟨hpost, hfull, hsending, hrest.mailboxFull hmsg⟩

/-- A service that rests in its loop has nothing to handle, nor has anybody else. -/
theorem Inv.quiet_of_atRest [Nonempty τ] (hs : Inv mailboxSize taskQueueSize s)
    (hmailbox : 2 ≤ mailboxSize) (hrest : AtRest files s) (hrunning : ∀ t, s.running t = none)
    (hservice : s.service = .atLoop) : Quiet s := by
  have hreceiver := hs.receiver_of_atRest hrest
  have hmessages : s.mailbox.recvMsgQueue.elements = [] := by
    have hcounter : s.mailbox.eventFd.counter = 0 := by
      by_contra hpos
      have hfire := hrest.step_eq_none (a := .fire) rfl
      have harmed := (hs.mailbox.armed hreceiver).trans hs.reactor
      simp [MapReduceServer.step, AtLoop, hservice, hreceiver, mailboxStep, InteractiveTask.step,
        hs.own, harmed, Nat.pos_of_ne_zero hpos] at hfire
    refine hs.mailbox.elements_eq_nil hcounter ?_ (by simp [hreceiver])
    intro sender
    cases sender with
    | none => simp [hs.own]
    | some sender => exact hrest.sender_ne_atWrite sender
  have hsender : ∀ sender, s.mailbox.sender sender = .idle := by
    intro sender
    cases sender with
    | none => exact hs.own
    | some sender =>
        cases hat : s.mailbox.sender (some sender) with
        | idle => rfl
        | atWrite => exact absurd hat (hrest.sender_ne_atWrite sender)
        | atSyncPut msg =>
            have hfull := hrest.mailboxFull hat
            rw [hs.mailbox.valid.full_iff, hmessages, List.length_nil, hs.mailboxSize] at hfull
            omega
  have htasks := hrest.noTasks (hrunning (Classical.arbitrary τ)) (hsender _)
  exact ⟨hservice, hs.taskQueue.empty_iff.mp htasks, hrunning, hsender, hmessages⟩

theorem Inv.quiet_or_circularWait [Nonempty τ] (hs : Inv mailboxSize taskQueueSize s)
    (hserved : Served s) (hmailbox : 2 ≤ mailboxSize) (htaskQueue : 2 ≤ taskQueueSize)
    (hrest : AtRest files s)
    (hfiles : ∀ t task, s.running t = some task → files.content task.filePath ≠ none) :
    Quiet s ∨ CircularWait s := by
  have hrunning := hs.running_of_atRest hrest hfiles
  cases hservice : s.service with
  | atLoop => exact .inl (hs.quiet_of_atRest hmailbox hrest hrunning hservice)
  | atPost c path rest =>
      right
      apply hs.circularWait_of_atRest htaskQueue hrest hrunning
      simp [hservice]
  | atCount c rest =>
      have hcount := hrest.step_eq_none (a := .count) rfl
      have hconn := hserved.serving c (by simp [hservice, ServicePc.poster])
      simp [MapReduceServer.step, hservice, hconn] at hcount

end Work

end Banana.MapReduceServer
