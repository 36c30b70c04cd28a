import Banana.MultiThreading.ConcurrentHashMap
import Banana.MultiThreading.InteractiveTask

/-!
# TcpServer

`TcpServer::start` on the main thread, with the threads of the pool it creates.
It posts the services to the pool, waits until each of them is in the registry
and then runs the accept service itself, which hands every accepted fd to the
next service by putting a message into its mailbox.

The tasks of the server are `some i` for `vecSpWorkService_[i]` and `none` for
the accept service.  A call that blocks is a step that is not enabled, and an
assertion that fails ends the run.  The application registers tasks of its own
names at any time, and posts tasks to the pool from the accept service on.
-/

namespace Banana

namespace TcpServer

inductive Message
  | newConnect (clientFd : ℕ)
  | connection (handle : ℕ)
  | other

/-- A reference to a task: of the server, or of the application. -/
inductive SpTask (σ : Type*)
  | service (x : σ)
  | application
  deriving DecidableEq

/-! ## The thread pool -/

/-- Where `threadEntry` is: in `__syncGetOneTask` or in the task it got. -/
inductive ThreadPc (n : ℕ)
  | notCreated
  | atSyncGet
  | inService (i : Fin n)
  | inTask
  deriving DecidableEq

def SpTask.entered {n : ℕ} : SpTask (Fin n) → ThreadPc n
  | service i => .inService i
  | application => .inTask

structure ThreadPool (n m : ℕ) where
  threads : Fin (n + m) → ThreadPc n
  taskQueue : ConcurrentRingBuffer (SpTask (Fin n))

namespace ThreadPool

variable {n m : ℕ}

def new (taskQueueSize : ℕ) (buff : ℕ → SpTask (Fin n)) : ThreadPool n m where
  threads := fun _ => .notCreated
  taskQueue := .new taskQueueSize buff

def setThread (pool : ThreadPool n m) (t : Fin (n + m)) (pc : ThreadPc n) : ThreadPool n m :=
  { pool with threads := Function.update pool.threads t pc }

def syncPostTask (pool : ThreadPool n m) (task : SpTask (Fin n)) : Option (ThreadPool n m) :=
  match ConcurrentRingBuffer.syncPut task pool.taskQueue with
  | .finish queue _ _ => some { pool with taskQueue := queue }
  | .wait _ => none

def syncGetOneTask (pool : ThreadPool n m) (t : Fin (n + m)) : Option (ThreadPool n m) :=
  match ConcurrentRingBuffer.syncGet pool.taskQueue with
  | .finish queue (.returnTrue task) _ =>
      some { pool.setThread t task.entered with taskQueue := queue }
  | _ => none

end ThreadPool

/-! ## The tasks -/

/-- `InteractiveTask::start` by the call that comes next; `inLoop` is the
dispatch of the reactor. -/
inductive StartPc
  | atSetThreadName
  | atCreateEventFd
  | atInitReactor
  | atAddEventHandler
  | atRegister
  | atOnStart
  | inLoop
  | dispatchReturned
  deriving DecidableEq

/-- `hasEventFd` says that `eventFd_` is not -1, `hasBase` that `pBase_` is not
null.  In the mailbox, `some none` is the thread of the accept service and
`some (some t)` any other thread that has found the task in the registry. -/
structure Service (τ : Type*) where
  pc : StartPc
  hasEventFd : Bool
  hasBase : Bool
  mailbox : InteractiveTask.Mailbox Message (Option τ)

namespace Service

variable {τ : Type*}

def new (buff : ℕ → Message) : Service τ where
  pc := .atSetThreadName
  hasEventFd := false
  hasBase := false
  mailbox := { InteractiveTask.start true 50000 buff with armed := false }

/-- The thread is in the dispatch and in no handler. -/
def atTop (task : Service τ) : Bool :=
  match task.pc, task.mailbox.receiver, task.mailbox.sender none with
  | .inLoop, .inLoop, .idle => true
  | _, _, _ => false

/-- A step of `start()`, the call of `registerTask` apart.  `onStart` arms the handler
of `acceptEventFd_`, or the listener; the dispatch returns when no event is
pending. -/
def startStep (task : Service τ) : Option (Service τ) :=
  match task.pc with
  | .atSetThreadName => some { task with pc := .atCreateEventFd }
  | .atCreateEventFd =>
      some { task with
        pc := .atInitReactor
        hasEventFd := true
        mailbox := { task.mailbox with eventFd := .createEventFd } }
  | .atInitReactor => some { task with pc := .atAddEventHandler, hasBase := true }
  | .atAddEventHandler =>
      -- `assert(fd >= 0)`, and the event is made on `pBase_`
      if task.hasEventFd = true ∧ task.hasBase = true then
        some { task with
          pc := .atRegister
          mailbox := { task.mailbox with armed := true } }
      else none
  | .atRegister => none
  | .atOnStart => some { task with pc := .inLoop }
  | .inLoop =>
      if task.atTop = true ∧ task.mailbox.armed = false then
        some { task with pc := .dispatchReturned }
      else none
  | .dispatchReturned => none

variable [DecidableEq τ]

/-- `notifyMsg` on an `eventFd_` of -1: the write fails and changes nothing. -/
def unopenedStep (mailbox : InteractiveTask.Mailbox Message (Option τ)) :
    InteractiveTask.Action Message (Option τ) →
      Option (InteractiveTask.Mailbox Message (Option τ))
  | .write t =>
      match mailbox.sender t with
      | .atWrite => some { mailbox with sender := Function.update mailbox.sender t .idle }
      | _ => none
  | a => InteractiveTask.step mailbox a

def act (task : Service τ) (a : InteractiveTask.Action Message (Option τ)) :
    Option (Service τ) :=
  (if task.hasEventFd then InteractiveTask.step task.mailbox a
    else unopenedStep task.mailbox a).map fun mailbox => { task with mailbox := mailbox }

end Service

inductive MainPc
  | startThread (created : ℕ)
  | startService (i : ℕ)
  | waitService (i : ℕ)
  | inAcceptService
  deriving DecidableEq

/-- The names under which the tasks register. -/
def taskName {n : ℕ} : Option (Fin n) → List Char
  | some i => "WorkService-".toList ++ Nat.toDigits 10 i
  | none => "AcceptService".toList

end TcpServer

open TcpServer in
/-- `accepting` is the service in whose `notifyMsg` the accept service is. -/
structure TcpServer (n m : ℕ) (τ : Type*) where
  main : MainPc
  pool : ThreadPool n m
  taskMap : ConcurrentHashMap.Buckets 499 (List Char) (SpTask (Option (Fin n)))
  services : Option (Fin n) → Service τ
  curServiceIndex : Fin n
  accepting : Option (Fin n)

namespace TcpServer

variable {n m : ℕ} {τ : Type*}

/-- `thread t` is a step of a pool thread, `mail x a` a step of another thread or
of its own on the mailbox of the task `x`. -/
inductive Action (n m : ℕ) (τ : Type*)
  | main
  | thread (t : Fin (n + m))
  | mail (x : Option (Fin n)) (a : InteractiveTask.Action Message (Option τ))
  | onAccept (clientFd : ℕ)
  | acceptPut
  | acceptWrite
  | postTask
  | registerTask (taskName : List Char)
  | unregisterTask (taskName : List Char)

def start [NeZero n] (taskBuff : ℕ → SpTask (Fin n)) (msgBuff : ℕ → Message) :
    TcpServer n m τ where
  main := .startThread 0
  pool := .new 1000 taskBuff
  taskMap := ConcurrentHashMap.emptyMap
  services := fun _ => .new msgBuff
  curServiceIndex := 0
  accepting := none

def setService (s : TcpServer n m τ) (x : Option (Fin n)) (task : Service τ) :
    TcpServer n m τ :=
  { s with services := Function.update s.services x task }

def nextServiceIndex (cur : Fin n) : Fin n :=
  if h : cur.val + 1 = n then ⟨0, by omega⟩ else ⟨cur.val + 1, by omega⟩

/-- `NetWorkService::onMessage` asserts that it knows the message. -/
def onMessageReturns (x : Option (Fin n)) : InteractiveTask.ReceiverPc Message → Bool
  | .inOnMessage .other => x.isNone
  | _ => true

section Steps

variable (hasher : List Char → ℕ)

def startStep (s : TcpServer n m τ) (x : Option (Fin n)) : Option (TcpServer n m τ) :=
  match (s.services x).pc with
  | .atRegister =>
      match ConcurrentHashMap.insert hasher (taskName x) (.service x) s.taskMap with
      | .finish taskMap .returnTrue _ =>
          some { s.setService x { s.services x with pc := .atOnStart } with taskMap := taskMap }
      | _ => none
  | _ => (s.services x).startStep.map (s.setService x)

def mainStep (s : TcpServer n m τ) : Option (TcpServer n m τ) :=
  match s.main with
  | .startThread created =>
      if h : created < n + m then
        some { s with
          pool := s.pool.setThread ⟨created, h⟩ .atSyncGet
          main := .startThread (created + 1) }
      else some { s with main := .startService 0 }
  | .startService i =>
      if h : i < n then
        (s.pool.syncPostTask (.service ⟨i, h⟩)).map fun pool =>
          { s with pool := pool, main := .startService (i + 1) }
      else some { s with main := .waitService 0 }
  | .waitService i =>
      if h : i < n then
        match ConcurrentHashMap.waitFind hasher (taskName (some ⟨i, h⟩)) s.taskMap with
        | .finish _ _ _ => some { s with main := .waitService (i + 1) }
        | .wait _ => none
      else some { s with main := .inAcceptService }
  | .inAcceptService =>
      match s.accepting with
      | none => startStep hasher s none
      | some _ => none

def threadStep (s : TcpServer n m τ) (t : Fin (n + m)) : Option (TcpServer n m τ) :=
  match s.pool.threads t with
  | .notCreated => none
  | .atSyncGet => (s.pool.syncGetOneTask t).map fun pool => { s with pool := pool }
  | .inService i => startStep hasher s (some i)
  | .inTask => some { s with pool := s.pool.setThread t .atSyncGet }

/-- The thread of a task works on its mailbox in the loop only, and not while it
is in `__onAccept`; other threads find the task in the registry. -/
def mayAct (s : TcpServer n m τ) (x : Option (Fin n)) :
    InteractiveTask.Action Message (Option τ) → Bool
  | .notifyMsg (some t) _ =>
      t.isSome &&
        decide (ConcurrentHashMap.lookup hasher s.taskMap (taskName x) = some (.service x))
  | .syncPut (some t) => t.isSome
  | .write (some t) => t.isSome
  | _ =>
      onMessageReturns x (s.services x).mailbox.receiver &&
        decide ((s.services x).pc = .inLoop ∧ (x = none → s.accepting = none))

variable [DecidableEq τ]

/-- A step of `__onAccept` on the mailbox of the service `i`. -/
def acceptStep (s : TcpServer n m τ) (i : Fin n)
    (a : InteractiveTask.Action Message (Option τ)) : Option (TcpServer n m τ) :=
  ((s.services (some i)).act a).map (s.setService (some i))

/-- A handler of the reactor of the accept service calls `__onAccept`, or the
`onLoop` of the application that `onStart` calls. -/
def onAccept (s : TcpServer n m τ) (clientFd : ℕ) : Option (TcpServer n m τ) :=
  if s.main = .inAcceptService ∧ s.accepting = none ∧
      ((s.services none).pc = .atOnStart ∨ (s.services none).atTop = true) then
    let i := nextServiceIndex s.curServiceIndex
    (acceptStep s i (.notifyMsg (some none) (.newConnect clientFd))).map fun u =>
      { u with curServiceIndex := i, accepting := some i }
  else none

/-- No task of the server has this name. -/
def isForeign (n : ℕ) (name : List Char) : Bool :=
  decide (∀ x : Option (Fin n), name ≠ taskName x)

def step (s : TcpServer n m τ) : Action n m τ → Option (TcpServer n m τ)
  | .main => mainStep hasher s
  | .thread t => threadStep hasher s t
  | .mail x a =>
      if mayAct hasher s x a then ((s.services x).act a).map (s.setService x) else none
  | .onAccept clientFd => onAccept s clientFd
  | .acceptPut => s.accepting.bind fun i => acceptStep s i (.syncPut (some none))
  | .acceptWrite =>
      s.accepting.bind fun i =>
        (acceptStep s i (.write (some none))).map fun u => { u with accepting := none }
  | .postTask =>
      if s.main = .inAcceptService then
        (s.pool.syncPostTask .application).map fun pool => { s with pool := pool }
      else none
  | .registerTask name =>
      if isForeign n name then
        match ConcurrentHashMap.insert hasher name .application s.taskMap with
        | .finish taskMap _ _ => some { s with taskMap := taskMap }
        | .wait _ => none
      else none
  | .unregisterTask name =>
      if isForeign n name then
        match ConcurrentHashMap.erase hasher name s.taskMap with
        | .finish taskMap _ _ => some { s with taskMap := taskMap }
        | .wait _ => none
      else none

/-! ## What a step can do -/

/-- A thread runs the task. -/
def Runs (s : TcpServer n m τ) : Option (Fin n) → Prop
  | some i => ∃ t, s.pool.threads t = .inService i
  | none => s.main = .inAcceptService ∧ s.accepting = none

/-- Who calls `notifyMsg` has found the task in the registry, or is its thread. -/
def MayNotify (s : TcpServer n m τ) (x : Option (Fin n))
    (b : InteractiveTask.Action Message (Option τ)) : Prop :=
  (∃ t, b = .syncPut t ∨ b = .write t) ∨ (s.services x).pc = .inLoop ∨
    ConcurrentHashMap.lookup hasher s.taskMap (taskName x) = some (.service x)

inductive Moves (s : TcpServer n m τ) : Action n m τ → TcpServer n m τ → Prop
  | createThread (created : ℕ) (hlt : created < n + m) (hat : s.main = .startThread created) :
      Moves s .main { s with
        pool := s.pool.setThread ⟨created, hlt⟩ .atSyncGet
        main := .startThread (created + 1) }
  | threadsStarted (created : ℕ) (hge : n + m ≤ created) (hat : s.main = .startThread created) :
      Moves s .main { s with main := .startService 0 }
  | postService (i : ℕ) (pool : ThreadPool n m) (hlt : i < n) (hat : s.main = .startService i)
      (hpost : s.pool.syncPostTask (.service ⟨i, hlt⟩) = some pool) :
      Moves s .main { s with pool := pool, main := .startService (i + 1) }
  | servicesStarted (i : ℕ) (hge : n ≤ i) (hat : s.main = .startService i) :
      Moves s .main { s with main := .waitService 0 }
  | findService (i : ℕ) (ref : SpTask (Option (Fin n))) (hlt : i < n)
      (hat : s.main = .waitService i)
      (hfound : ConcurrentHashMap.lookup hasher s.taskMap (taskName (some ⟨i, hlt⟩)) = some ref) :
      Moves s .main { s with main := .waitService (i + 1) }
  | servicesFound (i : ℕ) (hge : n ≤ i) (hat : s.main = .waitService i) :
      Moves s .main { s with main := .inAcceptService }
  | starts (a : Action n m τ) (x : Option (Fin n)) (task : Service τ) (hruns : s.Runs x)
      (hstart : (s.services x).startStep = some task) : Moves s a (s.setService x task)
  | registers (a : Action n m τ) (x : Option (Fin n)) (hat : (s.services x).pc = .atRegister)
      (hruns : s.Runs x) :
      Moves s a { s.setService x { s.services x with pc := .atOnStart } with
        taskMap := ConcurrentHashMap.setEntry hasher s.taskMap (taskName x) (some (.service x)) }
  | getTask (t : Fin (n + m)) (pool : ThreadPool n m) (hat : s.pool.threads t = .atSyncGet)
      (hget : s.pool.syncGetOneTask t = some pool) : Moves s (.thread t) { s with pool := pool }
  | endTask (t : Fin (n + m)) (hat : s.pool.threads t = .inTask) :
      Moves s (.thread t) { s with pool := s.pool.setThread t .atSyncGet }
  | acts (a : Action n m τ) (x : Option (Fin n))
      (b : InteractiveTask.Action Message (Option τ)) (task : Service τ)
      (hmay : s.MayNotify hasher x b) (hact : (s.services x).act b = some task) :
      Moves s a (s.setService x task)
  | onAccept (clientFd : ℕ) (i : Fin n) (task : Service τ) (hmain : s.main = .inAcceptService)
      (hact : (s.services (some i)).act (.notifyMsg (some none) (.newConnect clientFd)) =
        some task) :
      Moves s (.onAccept clientFd)
        { s.setService (some i) task with curServiceIndex := i, accepting := some i }
  | acceptWrite (i : Fin n) (task : Service τ) (hat : s.accepting = some i)
      (hact : (s.services (some i)).act (.write (some none)) = some task) :
      Moves s .acceptWrite { s.setService (some i) task with accepting := none }
  | postTask (pool : ThreadPool n m) (hmain : s.main = .inAcceptService)
      (hpost : s.pool.syncPostTask .application = some pool) :
      Moves s .postTask { s with pool := pool }
  | registry (a : Action n m τ) (name : List Char) (entry : Option (SpTask (Option (Fin n))))
      (hname : ∀ x : Option (Fin n), taskName x ≠ name) :
      Moves s a { s with taskMap := ConcurrentHashMap.setEntry hasher s.taskMap name entry }
  | refused (a : Action n m τ) : Moves s a s

variable {hasher}

theorem moves_of_startStep {s u : TcpServer n m τ} {x : Option (Fin n)} (a : Action n m τ)
    (hruns : s.Runs x) (h : startStep hasher s x = some u) : Moves hasher s a u := by
  by_cases hat : (s.services x).pc = .atRegister
  · cases hlook : ConcurrentHashMap.lookup hasher s.taskMap (taskName x) with
    | some ref => simp [startStep, hat, ConcurrentHashMap.insert, hlook] at h
    | none =>
        simp only [startStep, hat, ConcurrentHashMap.insert, hlook, Option.some.injEq] at h
        exact h ▸ .registers a x hat hruns
  · have hlocal : (s.services x).startStep.map (s.setService x) = some u := by
      cases hpc : (s.services x).pc <;> simp only [startStep, hpc] at h
      case atRegister => exact absurd hpc hat
      all_goals exact h
    obtain ⟨task, hstart, rfl⟩ := Option.map_eq_some_iff.mp hlocal
    exact .starts a x task hruns hstart

theorem moves_of_mainStep {s u : TcpServer n m τ} (h : mainStep hasher s = some u) :
    Moves hasher s .main u := by
  cases hat : s.main with
  | startThread created =>
      by_cases hlt : created < n + m
      · simp only [mainStep, hat, hlt, dif_pos, Option.some.injEq] at h
        exact h ▸ .createThread created hlt hat
      · simp only [mainStep, hat, hlt, dif_neg, not_false_eq_true, Option.some.injEq] at h
        exact h ▸ .threadsStarted created (not_lt.mp hlt) hat
  | startService i =>
      by_cases hlt : i < n
      · simp only [mainStep, hat, hlt, dif_pos] at h
        obtain ⟨pool, hpost, rfl⟩ := Option.map_eq_some_iff.mp h
        exact .postService i pool hlt hat hpost
      · simp only [mainStep, hat, hlt, dif_neg, not_false_eq_true, Option.some.injEq] at h
        exact h ▸ .servicesStarted i (not_lt.mp hlt) hat
  | waitService i =>
      by_cases hlt : i < n
      · cases hlook : ConcurrentHashMap.lookup hasher s.taskMap (taskName (some ⟨i, hlt⟩)) with
        | none => simp [mainStep, hat, hlt, ConcurrentHashMap.waitFind, hlook] at h
        | some ref =>
            simp only [mainStep, hat, hlt, dif_pos, ConcurrentHashMap.waitFind, hlook,
              Option.some.injEq] at h
            exact h ▸ .findService i ref hlt hat hlook
      · simp only [mainStep, hat, hlt, dif_neg, not_false_eq_true, Option.some.injEq] at h
        exact h ▸ .servicesFound i (not_lt.mp hlt) hat
  | inAcceptService =>
      cases hacc : s.accepting with
      | some i => simp [mainStep, hat, hacc] at h
      | none =>
          simp only [mainStep, hat, hacc] at h
          exact moves_of_startStep (x := none) .main ⟨hat, hacc⟩ h

theorem moves_of_threadStep {s u : TcpServer n m τ} {t : Fin (n + m)}
    (h : threadStep hasher s t = some u) : Moves hasher s (.thread t) u := by
  cases hat : s.pool.threads t <;> simp only [threadStep, hat] at h
  case notCreated => simp at h
  case atSyncGet =>
    obtain ⟨pool, hget, rfl⟩ := Option.map_eq_some_iff.mp h
    exact .getTask t pool hat hget
  case inService i => exact moves_of_startStep (x := some i) _ ⟨t, hat⟩ h
  case inTask => exact Option.some.inj h ▸ .endTask t hat

omit [DecidableEq τ] in
theorem mayNotify_of_mayAct {s : TcpServer n m τ} {x : Option (Fin n)}
    {b : InteractiveTask.Action Message (Option τ)} (h : mayAct hasher s x b = true) :
    s.MayNotify hasher x b := by
  cases b with
  | notifyMsg t msg =>
      cases t with
      | none =>
          obtain ⟨-, hloop, -⟩ : _ ∧ (s.services x).pc = .inLoop ∧ _ := by
            simpa [mayAct] using h
          exact .inr (.inl hloop)
      | some t =>
          obtain ⟨-, hfound⟩ : _ ∧ ConcurrentHashMap.lookup hasher s.taskMap (taskName x) =
              some (.service x) := by
            simpa [mayAct] using h
          exact .inr (.inr hfound)
  | syncPut t => exact .inl ⟨t, .inl rfl⟩
  | write t => exact .inl ⟨t, .inr rfl⟩
  | _ =>
      obtain ⟨-, hloop, -⟩ : _ ∧ (s.services x).pc = .inLoop ∧ _ := by
        simpa [mayAct] using h
      exact .inr (.inl hloop)

theorem ne_of_isForeign {name : List Char} (h : isForeign n name = true) (x : Option (Fin n)) :
    taskName x ≠ name := Ne.symm (of_decide_eq_true h x)

theorem moves_of_step {s u : TcpServer n m τ} {a : Action n m τ}
    (h : step hasher s a = some u) : Moves hasher s a u := by
  cases a with
  | main => exact moves_of_mainStep h
  | thread t => exact moves_of_threadStep h
  | mail x b =>
      obtain ⟨hmay, task, hact, rfl⟩ : mayAct hasher s x b = true ∧
          ∃ task, (s.services x).act b = some task ∧ s.setService x task = u := by
        simpa [step] using h
      exact .acts _ x b task (mayNotify_of_mayAct hmay) hact
  | onAccept clientFd =>
      obtain ⟨⟨hmain, -, -⟩, hstep⟩ := Option.ite_none_right_eq_some.mp h
      obtain ⟨v, hv, rfl⟩ := Option.map_eq_some_iff.mp hstep
      obtain ⟨task, hact, rfl⟩ := Option.map_eq_some_iff.mp hv
      exact .onAccept clientFd _ task hmain hact
  | acceptPut =>
      obtain ⟨i, hat, h⟩ := Option.bind_eq_some_iff.mp h
      obtain ⟨task, hact, rfl⟩ := Option.map_eq_some_iff.mp h
      exact .acts _ _ _ task (.inl ⟨_, .inl rfl⟩) hact
  | acceptWrite =>
      obtain ⟨i, hat, h⟩ := Option.bind_eq_some_iff.mp h
      obtain ⟨v, hv, rfl⟩ := Option.map_eq_some_iff.mp h
      obtain ⟨task, hact, rfl⟩ := Option.map_eq_some_iff.mp hv
      exact .acceptWrite i task hat hact
  | postTask =>
      obtain ⟨hmain, pool, hpost, rfl⟩ : s.main = .inAcceptService ∧
          ∃ pool, s.pool.syncPostTask .application = some pool ∧
            { s with pool := pool } = u := by
        simpa [step] using h
      exact .postTask pool hmain hpost
  | registerTask name =>
      by_cases hname : isForeign n name = true
      · cases hlook : ConcurrentHashMap.lookup hasher s.taskMap name with
        | some ref =>
            simp only [step, hname, if_true, ConcurrentHashMap.insert, hlook,
              Option.some.injEq] at h
            exact h ▸ .refused _
        | none =>
            simp only [step, hname, if_true, ConcurrentHashMap.insert, hlook,
              Option.some.injEq] at h
            exact h ▸ .registry _ name _ (ne_of_isForeign hname)
      · simp [step, hname] at h
  | unregisterTask name =>
      by_cases hname : isForeign n name = true
      · simp only [step, hname, if_true, ConcurrentHashMap.erase, Option.some.injEq] at h
        exact h ▸ .registry _ name _ (ne_of_isForeign hname)
      · simp [step, hname] at h

theorem Moves.accepts {s u : TcpServer n m τ} {a : Action n m τ}
    (h : Moves hasher s a u) (hmain : s.main = .inAcceptService) : u.main = .inAcceptService := by
  cases h with
  | createThread created hlt hat => simp [hat] at hmain
  | threadsStarted created hge hat => simp [hat] at hmain
  | postService i pool hlt hat hpost => simp [hat] at hmain
  | servicesStarted i hge hat => simp [hat] at hmain
  | findService i ref hlt hat hfound => simp [hat] at hmain
  | servicesFound i hge hat => rfl
  | _ => exact hmain

end Steps

end TcpServer

end Banana
