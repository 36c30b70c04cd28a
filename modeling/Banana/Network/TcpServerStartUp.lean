import Banana.Network.TcpServer

/-!
# Every service is up before the first accept

A service is posted once and taken once, and nothing else is in the queue of
the pool until the accept service runs, so there are always at least as many
threads waiting for a task as services waiting in the queue.  A service
registers after it has made its eventfd and armed the handler, and the main
thread goes on only when it has found every service in the registry.
-/

namespace Banana.TcpServer

open Threads

variable {n m : ℕ} {τ : Type*}

/-! ## The pool -/

def ThreadPc.runs (i : Fin n) : ThreadPc n → Bool
  | inService j => decide (j = i)
  | _ => false

def ThreadPc.isInService : ThreadPc n → Bool
  | inService _ => true
  | _ => false

def ThreadPc.isAtSyncGet : ThreadPc n → Bool
  | atSyncGet => true
  | _ => false

theorem ThreadPc.runs_iff {pc : ThreadPc n} {i : Fin n} : pc.runs i = true ↔ pc = .inService i := by
  cases pc <;> simp [runs]

theorem runs_entered (task : SpTask (Fin n)) (i : Fin n) :
    task.entered.runs i = (task == .service i) := by
  rw [Bool.eq_iff_iff]
  cases task with
  | service j => simp [SpTask.entered, ThreadPc.runs]
  | application => simp [SpTask.entered, ThreadPc.runs]

theorem count_isInService (f : Fin (n + m) → ThreadPc n) :
    count ThreadPc.isInService f = ∑ i, count (ThreadPc.runs i) f := by
  rw [sum_count, count_eq_total]
  refine congrArg (total · f) (funext fun pc => ?_)
  cases pc <;> simp [ThreadPc.isInService, ThreadPc.runs]

theorem length_eq_sum_count {tasks : List (SpTask (Fin n))} (h : .application ∉ tasks) :
    tasks.length = ∑ i, tasks.count (.service i) := by
  induction tasks with
  | nil => simp
  | cons task rest ih =>
      cases task with
      | application => simp at h
      | service j =>
          have hrest := ih fun hmem => h (List.mem_cons_of_mem _ hmem)
          simp [List.count_cons, Finset.sum_add_distrib, hrest]

/-- How many threads are created, and how many services posted and found. -/
def MainPc.created (allNum : ℕ) : MainPc → ℕ
  | startThread created => created
  | _ => allNum

def MainPc.posted (n : ℕ) : MainPc → ℕ
  | startThread _ => 0
  | startService i => i
  | _ => n

def MainPc.found (n : ℕ) : MainPc → ℕ
  | waitService i => i
  | inAcceptService => n
  | _ => 0

namespace ThreadPool

theorem eq_of_syncPostTask {pool pool' : ThreadPool n m} {task : SpTask (Fin n)}
    (h : pool.syncPostTask task = some pool') :
    pool.taskQueue.next pool.taskQueue.head ≠ pool.taskQueue.tail ∧
      pool' = { pool with taskQueue := pool.taskQueue.push task } := by
  by_cases hfull : pool.taskQueue.next pool.taskQueue.head = pool.taskQueue.tail
  · simp [syncPostTask, ConcurrentRingBuffer.syncPut, hfull] at h
  · simp only [syncPostTask, ConcurrentRingBuffer.syncPut, hfull, if_false,
      Option.some.injEq] at h
    exact ⟨hfull, h.symm⟩

theorem eq_of_syncGetOneTask {pool pool' : ThreadPool n m} {t : Fin (n + m)}
    (h : pool.syncGetOneTask t = some pool') :
    pool.taskQueue.tail ≠ pool.taskQueue.head ∧
      pool' = { pool.setThread t (pool.taskQueue.buff pool.taskQueue.tail).entered with
        taskQueue := pool.taskQueue.pop } := by
  by_cases hempty : pool.taskQueue.tail = pool.taskQueue.head
  · simp [syncGetOneTask, ConcurrentRingBuffer.syncGet, hempty] at h
  · simp only [syncGetOneTask, ConcurrentRingBuffer.syncGet, hempty, if_false,
      Option.some.injEq] at h
    exact ⟨hempty, h.symm⟩

theorem count_setThread (pool : ThreadPool n m) {t : Fin (n + m)} {pc : ThreadPc n}
    (hat : pool.threads t = pc) (p : ThreadPc n → Bool) (pc' : ThreadPc n) :
    count p (pool.setThread t pc').threads + (if p pc then 1 else 0) =
      count p pool.threads + if p pc' then 1 else 0 := by
  rw [← hat]
  exact count_update p pool.threads t pc'

theorem threads_setThread_of_ne (pool : ThreadPool n m) {t t' : Fin (n + m)} (hne : t' ≠ t)
    (pc : ThreadPc n) : (pool.setThread t pc).threads t' = pool.threads t' :=
  Function.update_of_ne hne _ _

@[simp] theorem threads_setThread_self (pool : ThreadPool n m) (t : Fin (n + m)) (pc : ThreadPc n) :
    (pool.setThread t pc).threads t = pc := Function.update_self _ _ _

theorem setThread_notCreated_iff {pool : ThreadPool n m} {t : Fin (n + m)} {pc pc' : ThreadPc n}
    (hat : pool.threads t = pc) (hold : pc ≠ .notCreated) (hnew : pc' ≠ .notCreated)
    (t' : Fin (n + m)) :
    (pool.setThread t pc').threads t' = .notCreated ↔ pool.threads t' = .notCreated := by
  by_cases ht : t' = t
  · subst t'
    rw [threads_setThread_self, hat]
    exact iff_of_false hnew hold
  · rw [threads_setThread_of_ne _ ht]

theorem setThread_ne_inTask {pool : ThreadPool n m} (h : ∀ t, pool.threads t ≠ .inTask)
    (t : Fin (n + m)) {pc : ThreadPc n} (hpc : pc ≠ .inTask) (t' : Fin (n + m)) :
    (pool.setThread t pc).threads t' ≠ .inTask := by
  by_cases ht : t' = t
  · subst t'
    rwa [threads_setThread_self]
  · rw [threads_setThread_of_ne _ ht]
    exact h t'

structure Inv (pool : ThreadPool n m) (main : MainPc) : Prop where
  valid : pool.taskQueue.Valid
  created : ∀ t, pool.threads t = .notCreated ↔ main.created (n + m) ≤ t
  placed : ∀ i, pool.taskQueue.elements.count (.service i) +
    count (ThreadPc.runs i) pool.threads = if i < main.posted n then 1 else 0
  servicesOnly : main ≠ .inAcceptService →
    .application ∉ pool.taskQueue.elements ∧ ∀ t, pool.threads t ≠ .inTask

theorem inv_new {size : ℕ} (hsize : 1 ≤ size) (buff : ℕ → SpTask (Fin n)) :
    (new size buff : ThreadPool n m).Inv (.startThread 0) where
  valid := ConcurrentRingBuffer.valid_new hsize buff
  created t := by simp [new, MainPc.created]
  placed i := by
    have hnobody : count (ThreadPc.runs i) (new size buff : ThreadPool n m).threads = 0 :=
      count_eq_zero_iff.mpr fun _ => rfl
    rw [hnobody]
    simp [new, hsize, MainPc.posted]
  servicesOnly _ := by simp [new, hsize]

namespace Inv

variable {pool pool' : ThreadPool n m} {main : MainPc}

/-- The threads and the queue stay, and the main thread goes on. -/
theorem setMain (h : pool.Inv main) {main' : MainPc}
    (hcreated : ∀ t : Fin (n + m), main'.created (n + m) ≤ t ↔ main.created (n + m) ≤ t)
    (hposted : ∀ i : Fin n, i < main'.posted n ↔ i < main.posted n)
    (hbefore : main ≠ .inAcceptService ∨ main' = .inAcceptService) : pool.Inv main' where
  valid := h.valid
  created t := by rw [h.created, hcreated]
  placed i := by simp only [h.placed, hposted]
  servicesOnly hnot := h.servicesOnly (hbefore.resolve_right hnot)

theorem createThread {created : ℕ} (h : pool.Inv (.startThread created)) (hlt : created < n + m) :
    (pool.setThread ⟨created, hlt⟩ .atSyncGet).Inv (.startThread (created + 1)) := by
  have hat : pool.threads ⟨created, hlt⟩ = .notCreated := (h.created _).mpr (le_refl created)
  refine ⟨h.valid, fun t => ?_, fun i => ?_, fun hnot => ?_⟩
  · by_cases ht : t = ⟨created, hlt⟩
    · subst t
      simp [threads_setThread_self, MainPc.created]
    · have hval : t.val ≠ created := fun heq => ht (Fin.ext heq)
      rw [threads_setThread_of_ne _ ht, h.created]
      simp only [MainPc.created]
      omega
  · have hcount := count_setThread pool hat (ThreadPc.runs i) .atSyncGet
    have hplaced := h.placed i
    simp [ThreadPc.runs] at hcount
    rw [hcount]
    exact hplaced
  · obtain ⟨hqueue, hthreads⟩ := h.servicesOnly (by simp)
    exact ⟨hqueue, setThread_ne_inTask hthreads _ (by simp)⟩

theorem postService {i : ℕ} (h : pool.Inv (.startService i)) (hlt : i < n)
    (hpost : pool.syncPostTask (.service ⟨i, hlt⟩) = some pool') :
    pool'.Inv (.startService (i + 1)) := by
  obtain ⟨hroom, rfl⟩ := eq_of_syncPostTask hpost
  have hqueue := h.valid.elements_push (.service ⟨i, hlt⟩) hroom
  obtain ⟨hservices, hthreads⟩ := h.servicesOnly (by simp)
  refine ⟨h.valid.push _, h.created, fun j => ?_, fun hnot => ⟨?_, hthreads⟩⟩
  · have hplaced := h.placed j
    rw [hqueue, List.count_append, List.count_singleton]
    simp only [MainPc.posted] at hplaced ⊢
    by_cases hj : j = ⟨i, hlt⟩
    · subst j
      simp at hplaced ⊢
      omega
    · have hval : j.val ≠ i := fun heq => hj (Fin.ext heq)
      have hne : (SpTask.service ⟨i, hlt⟩ == SpTask.service j) = false := by
        simpa using fun heq => hj heq.symm
      have hiff : j.val < i + 1 ↔ j.val < i := by omega
      simp only [hne, hiff, Bool.false_eq_true, if_false, add_zero]
      exact hplaced
  · rw [hqueue]
    simpa using hservices

theorem postTask (h : pool.Inv .inAcceptService)
    (hpost : pool.syncPostTask .application = some pool') : pool'.Inv .inAcceptService := by
  obtain ⟨hroom, rfl⟩ := eq_of_syncPostTask hpost
  have hqueue := h.valid.elements_push .application hroom
  refine ⟨h.valid.push _, h.created, fun i => ?_, fun hnot => absurd rfl hnot⟩
  rw [hqueue, List.count_append]
  simpa using h.placed i

theorem getTask (h : pool.Inv main) {t : Fin (n + m)} (hat : pool.threads t = .atSyncGet)
    (hget : pool.syncGetOneTask t = some pool') : pool'.Inv main := by
  obtain ⟨hsome, rfl⟩ := eq_of_syncGetOneTask hget
  have hqueue := h.valid.elements_pop hsome
  refine ⟨h.valid.pop, fun t' => ?_, fun i => ?_, fun hnot => ?_⟩
  · rw [← h.created]
    refine setThread_notCreated_iff hat (by simp) ?_ t'
    cases pool.taskQueue.buff pool.taskQueue.tail <;> simp [SpTask.entered]
  · have hcount := count_setThread pool hat (ThreadPc.runs i)
      (pool.taskQueue.buff pool.taskQueue.tail).entered
    have hplaced := h.placed i
    rw [runs_entered] at hcount
    rw [hqueue, List.count_cons] at hplaced
    simp [ThreadPc.runs] at hcount hplaced ⊢
    omega
  · obtain ⟨hservices, hthreads⟩ := h.servicesOnly hnot
    rw [hqueue, List.mem_cons, not_or] at hservices
    refine ⟨hservices.2, setThread_ne_inTask hthreads t ?_⟩
    cases hhead : pool.taskQueue.buff pool.taskQueue.tail with
    | service i => simp [SpTask.entered]
    | application => exact absurd hhead.symm hservices.1

theorem endTask (h : pool.Inv main) {t : Fin (n + m)} (hat : pool.threads t = .inTask) :
    (pool.setThread t .atSyncGet).Inv main := by
  refine ⟨h.valid, fun t' => ?_, fun i => ?_, fun hnot => ?_⟩
  · rw [← h.created]
    exact setThread_notCreated_iff hat (by simp) (by simp) t'
  · have hcount := count_setThread pool hat (ThreadPc.runs i) .atSyncGet
    simp [ThreadPc.runs] at hcount
    rw [hcount]
    exact h.placed i
  · exact absurd hat ((h.servicesOnly hnot).2 t)

/-- A service that a thread runs is in the queue no more. -/
theorem not_mem_of_runs (h : pool.Inv main) {t : Fin (n + m)} {i : Fin n}
    (hat : pool.threads t = .inService i) : .service i ∉ pool.taskQueue.elements := by
  have hpos : 0 < count (ThreadPc.runs i) pool.threads :=
    count_pos_iff.mpr ⟨t, ThreadPc.runs_iff.mpr hat⟩
  have hplaced := h.placed i
  rw [← List.count_eq_zero]
  split_ifs at hplaced <;> omega

/-- Until the accept service runs every thread that runs no service is free. -/
theorem length_add_le (h : pool.Inv main) (hcreated : main.created (n + m) = n + m)
    (hbefore : main ≠ .inAcceptService) :
    pool.taskQueue.elements.length + m ≤ count ThreadPc.isAtSyncGet pool.threads := by
  obtain ⟨hservices, hthreads⟩ := h.servicesOnly hbefore
  have hfree : count (fun pc : ThreadPc n => !pc.isInService) pool.threads =
      count ThreadPc.isAtSyncGet pool.threads := by
    refine congrArg Finset.card (Finset.filter_congr fun t _ => ?_)
    have hnot : pool.threads t ≠ .notCreated := by
      rw [Ne, h.created, hcreated]
      omega
    cases hat : pool.threads t with
    | notCreated => exact absurd hat hnot
    | inTask => exact absurd hat (hthreads t)
    | atSyncGet => simp [ThreadPc.isInService, ThreadPc.isAtSyncGet]
    | inService i => simp [ThreadPc.isInService, ThreadPc.isAtSyncGet]
  have hplaced : pool.taskQueue.elements.length + count ThreadPc.isInService pool.threads ≤ n := by
    calc
      _ = ∑ i : Fin n, (if i < main.posted n then 1 else 0) := by
        rw [length_eq_sum_count hservices, count_isInService, ← Finset.sum_add_distrib]
        exact Finset.sum_congr rfl fun i _ => h.placed i
      _ ≤ ∑ _i : Fin n, 1 := Finset.sum_le_sum fun i _ => by split_ifs <;> omega
      _ = n := by simp
  have hall := count_add_count_not ThreadPc.isInService pool.threads
  rw [hfree, Fintype.card_fin] at hall
  omega

/-- When every service runs, it has a thread of its own and `m` threads are left. -/
theorem owners (h : pool.Inv main) (hruns : ∀ i, ∃ t, pool.threads t = .inService i) :
    count (fun pc : ThreadPc n => !pc.isInService) pool.threads = m := by
  have hone : ∀ i, count (ThreadPc.runs i) pool.threads = 1 := by
    intro i
    obtain ⟨t, hat⟩ := hruns i
    have hpos : 0 < count (ThreadPc.runs i) pool.threads :=
      count_pos_iff.mpr ⟨t, ThreadPc.runs_iff.mpr hat⟩
    have hplaced := h.placed i
    split_ifs at hplaced <;> omega
  have hoccupied : count ThreadPc.isInService pool.threads = n := by
    rw [count_isInService, Finset.sum_congr rfl fun i _ => hone i]
    simp
  have hall := count_add_count_not ThreadPc.isInService pool.threads
  rw [Fintype.card_fin] at hall
  omega

end Inv

end ThreadPool

/-! ## The tasks -/

def StartPc.hasEventFd : StartPc → Bool
  | atSetThreadName => false
  | atCreateEventFd => false
  | _ => true

def StartPc.hasBase : StartPc → Bool
  | atSetThreadName => false
  | atCreateEventFd => false
  | atInitReactor => false
  | _ => true

def StartPc.armed : StartPc → Bool
  | atRegister => true
  | atOnStart => true
  | inLoop => true
  | dispatchReturned => true
  | _ => false

def StartPc.registered : StartPc → Bool
  | atOnStart => true
  | inLoop => true
  | dispatchReturned => true
  | _ => false

theorem StartPc.armed_of_registered {pc : StartPc} (h : pc.registered = true) :
    pc.armed = true := by
  cases pc <;> simp_all [registered, armed]

theorem StartPc.hasEventFd_of_armed {pc : StartPc} (h : pc.armed = true) :
    pc.hasEventFd = true := by
  cases pc <;> simp_all [armed, hasEventFd]

namespace Service

/-- The read handler of the eventfd is armed, or running. -/
def Handles (task : Service τ) : Prop :=
  task.mailbox.armed = true ∨ task.mailbox.receiver ≠ .inLoop

variable [Fintype τ]

/-- The mailbox is as constructed until the handler is armed, and works from then on. -/
structure Ok (buff : ℕ → Message) (task : Service τ) : Prop where
  eventFd : task.hasEventFd = task.pc.hasEventFd
  base : task.hasBase = task.pc.hasBase
  fresh : task.pc.armed = false → task.mailbox = (new buff : Service τ).mailbox
  mailbox : task.pc.armed = true →
    InteractiveTask.Inv task.mailbox ∧ task.mailbox.hasReactor = true
  dispatching : task.pc ≠ .dispatchReturned

variable {buff : ℕ → Message} {task task' : Service τ}

theorem ok_new (buff : ℕ → Message) : (new buff : Service τ).Ok buff where
  eventFd := rfl
  base := rfl
  fresh _ := rfl
  mailbox := nofun
  dispatching := nofun

theorem Ok.handles (h : task.Ok buff) (harmed : task.pc.armed = true) : task.Handles := by
  obtain ⟨hinv, hreactor⟩ := h.mailbox harmed
  by_cases hloop : task.mailbox.receiver = .inLoop
  · exact .inl ((hinv.armed hloop).trans hreactor)
  · exact .inr hloop

omit [Fintype τ] in
theorem atTop_spec {task : Service τ} (h : task.atTop = true) :
    task.pc = .inLoop ∧ task.mailbox.receiver = .inLoop := by
  unfold atTop at h
  split at h
  · exact ⟨‹_›, ‹_›⟩
  · simp at h

/-- The dispatch never returns: a handler is armed or running in it. -/
theorem Ok.not_returns (h : task.Ok buff) (htop : task.atTop = true) :
    task.mailbox.armed = true := by
  obtain ⟨hloop, hreceiver⟩ := atTop_spec htop
  exact (h.handles (by rw [hloop, StartPc.armed])).resolve_right (not_not_intro hreceiver)

theorem Ok.startStep (h : task.Ok buff) (hstart : task.startStep = some task') :
    task'.Ok buff ∧ task'.pc.registered = task.pc.registered := by
  obtain ⟨pc, hasEventFd, hasBase, mailbox⟩ := task
  cases pc <;> simp only [Service.startStep] at hstart
  case atSetThreadName =>
    obtain rfl := Option.some.inj hstart
    exact ⟨⟨h.eventFd, h.base, fun _ => h.fresh rfl, nofun, nofun⟩, rfl⟩
  case atCreateEventFd =>
    obtain rfl := Option.some.inj hstart
    obtain rfl := h.fresh rfl
    exact ⟨⟨rfl, h.base, fun _ => rfl, nofun, nofun⟩, rfl⟩
  case atInitReactor =>
    obtain rfl := Option.some.inj hstart
    exact ⟨⟨h.eventFd, rfl, fun _ => h.fresh rfl, nofun, nofun⟩, rfl⟩
  case atAddEventHandler =>
    obtain ⟨-, hstart⟩ := Option.ite_none_right_eq_some.mp hstart
    obtain rfl := Option.some.inj hstart
    obtain rfl := h.fresh rfl
    refine ⟨⟨h.eventFd, h.base, nofun, fun _ => ⟨?_, rfl⟩, nofun⟩, rfl⟩
    exact InteractiveTask.inv_start true (by omega) buff
  case atRegister => simp at hstart
  case atOnStart =>
    obtain rfl := Option.some.inj hstart
    exact ⟨⟨h.eventFd, h.base, nofun, fun _ => h.mailbox rfl, nofun⟩, rfl⟩
  case inLoop =>
    obtain ⟨⟨htop, hunarmed⟩, -⟩ := Option.ite_none_right_eq_some.mp hstart
    rw [h.not_returns htop] at hunarmed
    exact Bool.noConfusion hunarmed
  case dispatchReturned => simp at hstart

variable [DecidableEq τ]

theorem Ok.act (h : task.Ok buff) {b : InteractiveTask.Action Message (Option τ)}
    (hmay : (∃ t, b = .syncPut t ∨ b = .write t) ∨ task.pc.armed = true)
    (hact : task.act b = some task') : task'.Ok buff ∧ task'.pc = task.pc := by
  obtain ⟨mailbox, hstep, rfl⟩ := Option.map_eq_some_iff.mp hact
  cases harmed : task.pc.armed with
  | true =>
      obtain ⟨hinv, hreactor⟩ := h.mailbox harmed
      rw [h.eventFd, StartPc.hasEventFd_of_armed harmed, if_pos rfl] at hstep
      have hframe := (InteractiveTask.moves_of_step hstep).frame
      refine ⟨⟨h.eventFd, h.base, fun hnot => ?_, fun _ => ?_, h.dispatching⟩, rfl⟩
      · rw [harmed] at hnot
        exact Bool.noConfusion hnot
      · exact ⟨hinv.step hstep, hframe.1.trans hreactor⟩
  | false =>
      -- Nobody is in `notifyMsg` of a task that is not armed.
      have hidle : ∀ t, task.mailbox.sender t = .idle := fun t => by
        rw [h.fresh harmed]
        rfl
      rcases hmay with ⟨t, rfl | rfl⟩ | hmay
      · cases task.hasEventFd <;> simp [unopenedStep, InteractiveTask.step, hidle] at hstep
      · cases task.hasEventFd <;> simp [unopenedStep, InteractiveTask.step, hidle] at hstep
      · rw [harmed] at hmay
        exact Bool.noConfusion hmay

end Service

/-! ## The server -/

theorem taskName_injective : Function.Injective (taskName : Option (Fin n) → List Char) := by
  have hhead : ∀ i : Fin n, taskName (some i) ≠ taskName (none : Option (Fin n)) := by
    intro i heq
    change "WorkService-".toList ++ Nat.toDigits 10 i = "AcceptService".toList at heq
    have hchar := congrArg List.head? heq
    simp at hchar
  intro x y heq
  cases x with
  | none =>
      cases y with
      | none => rfl
      | some j => exact absurd heq.symm (hhead j)
  | some i =>
      cases y with
      | none => exact absurd heq (hhead i)
      | some j =>
          have hdigits := congrArg (Nat.ofDigitChars 10 · 0) (List.append_cancel_left heq)
          simp only [Nat.ofDigitChars_ten_toDigits] at hdigits
          rw [Fin.ext hdigits]

variable [Fintype τ] {hasher : List Char → ℕ} {buff : ℕ → Message}

open ConcurrentHashMap (lookup setEntry)

structure Inv (hasher : List Char → ℕ) (buff : ℕ → Message) (s : TcpServer n m τ) : Prop where
  pool : s.pool.Inv s.main
  services : ∀ x, (s.services x).Ok buff
  registry : ∀ x, lookup hasher s.taskMap (taskName x) =
    if (s.services x).pc.registered then some (.service x) else none
  started : ∀ i, (s.services (some i)).pc ≠ .atSetThreadName →
    ∃ t, s.pool.threads t = .inService i
  found : ∀ i : Fin n, i < s.main.found n → (s.services (some i)).pc.registered = true
  accepting : s.accepting ≠ none → s.main = .inAcceptService

theorem inv_start [NeZero n] (taskBuff : ℕ → SpTask (Fin n)) (buff : ℕ → Message) :
    Inv hasher buff (start taskBuff buff : TcpServer n m τ) where
  pool := ThreadPool.inv_new (by omega) taskBuff
  services _ := Service.ok_new buff
  registry _ := rfl
  started _ hpc := absurd rfl hpc
  found _ hlt := absurd hlt (Nat.not_lt_zero _)
  accepting := nofun

/-- A thread that runs a service runs it forever. -/
def KeepsServices (pool pool' : ThreadPool n m) : Prop :=
  ∀ t i, pool.threads t = .inService i → pool'.threads t = .inService i

theorem keepsServices_setThread {pool : ThreadPool n m} {t : Fin (n + m)} {old : ThreadPc n}
    (hat : pool.threads t = old) (hfree : old.isInService = false) (pc : ThreadPc n) :
    KeepsServices pool (pool.setThread t pc) := by
  intro t' i hin
  have hne : t' ≠ t := by
    rintro rfl
    rw [← hat, hin] at hfree
    exact Bool.noConfusion hfree
  rw [ThreadPool.threads_setThread_of_ne _ hne, hin]

theorem keepsServices_getTask {pool pool' : ThreadPool n m} {t : Fin (n + m)}
    (hat : pool.threads t = .atSyncGet) (hget : pool.syncGetOneTask t = some pool') :
    KeepsServices pool pool' := by
  obtain ⟨-, rfl⟩ := ThreadPool.eq_of_syncGetOneTask hget
  exact keepsServices_setThread hat rfl _

theorem keepsServices_post {pool pool' : ThreadPool n m} {task : SpTask (Fin n)}
    (hpost : pool.syncPostTask task = some pool') : KeepsServices pool pool' := by
  obtain ⟨-, rfl⟩ := ThreadPool.eq_of_syncPostTask hpost
  exact fun _ _ hin => hin

namespace Inv

variable {s : TcpServer n m τ}

/-- The main thread goes on, or the pool does. -/
theorem setPool (hs : Inv hasher buff s) {pool : ThreadPool n m} {main : MainPc}
    (hpool : pool.Inv main) (hkeeps : KeepsServices s.pool pool)
    (hfound : ∀ i : Fin n, i < main.found n → (s.services (some i)).pc.registered = true)
    (haccept : s.main ≠ .inAcceptService ∨ main = .inAcceptService) :
    Inv hasher buff { s with pool := pool, main := main } where
  pool := hpool
  services := hs.services
  registry := hs.registry
  started i hpc := by
    obtain ⟨t, ht⟩ := hs.started i hpc
    exact ⟨t, hkeeps t i ht⟩
  found := hfound
  accepting hacc := haccept.resolve_left (not_not_intro (hs.accepting hacc))

/-- A task goes on, and stays registered if it is. -/
theorem setTask (hs : Inv hasher buff s) {x : Option (Fin n)} {task : Service τ}
    {taskMap : ConcurrentHashMap.Buckets 499 (List Char) (SpTask (Option (Fin n)))}
    (hok : task.Ok buff)
    (hkeeps : (s.services x).pc.registered = true → task.pc.registered = true)
    (hregistry : ∀ y, lookup hasher taskMap (taskName y) =
      if (Function.update s.services x task y).pc.registered then some (.service y) else none)
    (hruns : ∀ i, x = some i → task.pc ≠ .atSetThreadName →
      ∃ t, s.pool.threads t = .inService i) :
    Inv hasher buff { s.setService x task with taskMap := taskMap } := by
  refine { hs with services := fun y => ?_, registry := hregistry, started := fun i hpc => ?_,
                   found := fun i hlt => ?_ }
  · by_cases hy : y = x
    · subst y
      simpa [TcpServer.setService] using hok
    · simpa [TcpServer.setService, hy] using hs.services y
  · by_cases hi : some i = x
    · exact hruns i hi.symm (by simpa [TcpServer.setService, hi] using hpc)
    · exact hs.started i (by simpa [TcpServer.setService, hi] using hpc)
  · have hold := hs.found i hlt
    by_cases hi : some i = x
    · simpa [TcpServer.setService, hi] using hkeeps (hi ▸ hold)
    · simpa [TcpServer.setService, hi] using hold

theorem setService (hs : Inv hasher buff s) {x : Option (Fin n)} {task : Service τ}
    (hok : task.Ok buff) (hregistered : task.pc.registered = (s.services x).pc.registered)
    (hruns : ∀ i, x = some i → task.pc ≠ .atSetThreadName →
      ∃ t, s.pool.threads t = .inService i) : Inv hasher buff (s.setService x task) := by
  refine hs.setTask hok hregistered.trans (fun y => ?_) hruns
  rw [hs.registry]
  by_cases hy : y = x
  · subst y
    simp [hregistered]
  · simp [hy]

theorem armed_of_found (hs : Inv hasher buff s) {x : Option (Fin n)}
    (hfound : lookup hasher s.taskMap (taskName x) = some (.service x)) :
    (s.services x).pc.armed = true := by
  rw [hs.registry] at hfound
  cases hregistered : (s.services x).pc.registered with
  | true => exact StartPc.armed_of_registered hregistered
  | false => simp [hregistered] at hfound

theorem registered_of_accepts (hs : Inv hasher buff s) (hmain : s.main = .inAcceptService)
    (i : Fin n) : (s.services (some i)).pc.registered = true :=
  hs.found i (by rw [hmain]; exact i.isLt)

theorem registers (hs : Inv hasher buff s) {x : Option (Fin n)}
    (hat : (s.services x).pc = .atRegister) :
    Inv hasher buff { s.setService x { s.services x with pc := .atOnStart } with
      taskMap := setEntry hasher s.taskMap (taskName x) (some (.service x)) } := by
  have hold := hs.services x
  have hok : Service.Ok buff { s.services x with pc := .atOnStart } := by
    refine ⟨?_, ?_, nofun, fun _ => hold.mailbox (by rw [hat, StartPc.armed]), nofun⟩
    · exact hold.eventFd.trans (by rw [hat]; rfl)
    · exact hold.base.trans (by rw [hat]; rfl)
  refine hs.setTask hok (fun _ => rfl) (fun y => ?_) fun i hi _ => hs.started i ?_
  · by_cases hy : y = x
    · subst y
      rw [ConcurrentHashMap.lookup_setEntry_self]
      simp [StartPc.registered]
    · rw [ConcurrentHashMap.lookup_setEntry_of_ne hasher _ (taskName_injective.ne hy),
        hs.registry]
      simp [hy]
  · rw [← hi, hat]
    exact StartPc.noConfusion

theorem startStep_isSome (hs : Inv hasher buff s) {x : Option (Fin n)}
    (hpc : (s.services x).pc ≠ .inLoop) : (startStep hasher s x).isSome := by
  have hok := hs.services x
  cases hat : (s.services x).pc with
  | atRegister =>
      have habsent := hs.registry x
      rw [hat] at habsent
      simp only [StartPc.registered, Bool.false_eq_true, if_false] at habsent
      simp [startStep, hat, ConcurrentHashMap.insert, habsent]
  | atAddEventHandler =>
      have hfd : (s.services x).hasEventFd = true := hok.eventFd.trans (by rw [hat]; rfl)
      have hbase : (s.services x).hasBase = true := hok.base.trans (by rw [hat]; rfl)
      simp [startStep, hat, Service.startStep, hfd, hbase]
  | inLoop => exact absurd hat hpc
  | dispatchReturned => exact absurd hat hok.dispatching
  | _ => simp [startStep, hat, Service.startStep]

variable [DecidableEq τ]

theorem act (hs : Inv hasher buff s) {x : Option (Fin n)} {task : Service τ}
    {b : InteractiveTask.Action Message (Option τ)}
    (hmay : (∃ t, b = .syncPut t ∨ b = .write t) ∨ (s.services x).pc.armed = true)
    (hact : (s.services x).act b = some task) : Inv hasher buff (s.setService x task) := by
  obtain ⟨hok, hpc⟩ := (hs.services x).act hmay hact
  refine hs.setService hok (by rw [hpc]) fun i hi hne => ?_
  subst x
  exact hs.started i (hpc ▸ hne)

theorem keepsServices {u : TcpServer n m τ} {a : Action n m τ} (hs : Inv hasher buff s)
    (h : Moves hasher s a u) : KeepsServices s.pool u.pool := by
  cases h with
  | createThread created hlt hat =>
      have hpool := hs.pool
      rw [hat] at hpool
      exact keepsServices_setThread ((hpool.created ⟨created, hlt⟩).mpr (le_refl created)) rfl _
  | postService i pool hlt hat hpost => exact keepsServices_post hpost
  | postTask pool hmain hpost => exact keepsServices_post hpost
  | getTask t pool hat hget => exact keepsServices_getTask hat hget
  | endTask t hat => exact keepsServices_setThread hat rfl _
  | _ => exact fun _ _ hin => hin

theorem step {u : TcpServer n m τ} {a : Action n m τ} (hs : Inv hasher buff s)
    (h : TcpServer.step hasher s a = some u) : Inv hasher buff u := by
  have hmoves := moves_of_step h
  have hkeeps := hs.keepsServices hmoves
  have hpool := hs.pool
  cases hmoves with
  | createThread created hlt hat =>
      rw [hat] at hpool
      exact hs.setPool (hpool.createThread hlt) hkeeps (fun i hi => by simp [MainPc.found] at hi)
        (.inl (by simp [hat]))
  | threadsStarted created hge hat =>
      rw [hat] at hpool
      refine hs.setPool (hpool.setMain (fun t => ?_) (fun i => ?_) (.inl (by simp))) hkeeps
        (fun i hi => by simp [MainPc.found] at hi) (.inl (by simp [hat]))
      · simp only [MainPc.created]
        omega
      · simp [MainPc.posted]
  | postService i pool hlt hat hpost =>
      rw [hat] at hpool
      exact hs.setPool (hpool.postService hlt hpost) hkeeps
        (fun i hi => by simp [MainPc.found] at hi) (.inl (by simp [hat]))
  | servicesStarted i hge hat =>
      rw [hat] at hpool
      refine hs.setPool (hpool.setMain (fun t => Iff.rfl) (fun j => ?_) (.inl (by simp))) hkeeps
        (fun i hi => by simp [MainPc.found] at hi) (.inl (by simp [hat]))
      simp only [MainPc.posted]
      omega
  | findService i ref hlt hat hfound =>
      rw [hat] at hpool
      refine hs.setPool (hpool.setMain (fun t => Iff.rfl) (fun j => Iff.rfl) (.inl (by simp)))
        hkeeps (fun j hj => ?_) (.inl (by simp [hat]))
      by_cases hji : j = ⟨i, hlt⟩
      · subst j
        rw [hs.registry] at hfound
        cases hregistered : (s.services (some ⟨i, hlt⟩)).pc.registered with
        | true => rfl
        | false => simp [hregistered] at hfound
      · have hval : j.val ≠ i := fun heq => hji (Fin.ext heq)
        apply hs.found
        simp only [hat, MainPc.found] at hj ⊢
        omega
  | servicesFound i hge hat =>
      rw [hat] at hpool
      refine hs.setPool (hpool.setMain (fun t => Iff.rfl) (fun j => Iff.rfl) (.inl (by simp)))
        hkeeps (fun j _ => hs.found j ?_) (.inr rfl)
      simp only [hat, MainPc.found]
      omega
  | starts a x task hruns hstart =>
      obtain ⟨hok, hregistered⟩ := (hs.services x).startStep hstart
      refine hs.setService hok hregistered fun i hi _ => ?_
      subst x
      exact hruns
  | registers a x hat hruns => exact hs.registers hat
  | getTask t pool hat hget =>
      exact hs.setPool (hpool.getTask hat hget) hkeeps hs.found (Decidable.em _).symm
  | endTask t hat => exact hs.setPool (hpool.endTask hat) hkeeps hs.found (Decidable.em _).symm
  | acts a x b task hmay hact =>
      refine hs.act (hmay.imp_right ?_) hact
      rintro (hloop | hfound)
      · rw [hloop, StartPc.armed]
      · exact hs.armed_of_found hfound
  | onAccept clientFd i task hmain hact =>
      have harmed := StartPc.armed_of_registered (hs.registered_of_accepts hmain i)
      exact { hs.act (.inr harmed) hact with accepting := fun _ => hmain }
  | acceptWrite i task hat hact =>
      exact { hs.act (.inl ⟨_, .inr rfl⟩) hact with accepting := nofun }
  | postTask pool hmain hpost =>
      rw [hmain] at hpool
      refine hs.setPool ?_ hkeeps hs.found (Decidable.em _).symm
      rw [hmain]
      exact hpool.postTask hpost
  | registry a name entry hname =>
      refine { hs with registry := fun x => ?_ }
      rw [← hs.registry x]
      exact ConcurrentHashMap.lookup_setEntry_of_ne hasher _ (hname x) entry
  | refused a => exact hs

end Inv

/-! ## From the first accept on -/

/-- Every service has a thread of its own, an eventfd with its handler and its name
in the registry; `m` threads run no service. -/
structure Ready (hasher : List Char → ℕ) (owner : Fin n → Fin (n + m)) (s : TcpServer n m τ) :
    Prop where
  accepts : s.main = .inAcceptService
  taken : ∀ i, s.pool.threads (owner i) = .inService i
  eventFd : ∀ i, (s.services (some i)).hasEventFd = true
  handles : ∀ i, (s.services (some i)).Handles
  registered : ∀ i, lookup hasher s.taskMap (taskName (some i)) = some (.service (some i))
  unoccupied : count (fun pc : ThreadPc n => !pc.isInService) s.pool.threads = m
  noneWaits : ∀ i, .service i ∉ s.pool.taskQueue.elements

namespace Inv

variable {s : TcpServer n m τ}

theorem runs_of_accepts (hs : Inv hasher buff s) (hmain : s.main = .inAcceptService) (i : Fin n) :
    ∃ t, s.pool.threads t = .inService i := by
  refine hs.started i fun hpc => ?_
  have hregistered := hs.registered_of_accepts hmain i
  simp [hpc, StartPc.registered] at hregistered

theorem up_of_accepts (hs : Inv hasher buff s) (hmain : s.main = .inAcceptService) (i : Fin n) :
    (s.services (some i)).hasEventFd = true ∧ (s.services (some i)).Handles := by
  have hok := hs.services (some i)
  have harmed := StartPc.armed_of_registered (hs.registered_of_accepts hmain i)
  exact ⟨hok.eventFd.trans (StartPc.hasEventFd_of_armed harmed), hok.handles harmed⟩

theorem ready (hs : Inv hasher buff s) (hmain : s.main = .inAcceptService)
    {owner : Fin n → Fin (n + m)} (howner : ∀ i, s.pool.threads (owner i) = .inService i) :
    Ready hasher owner s where
  accepts := hmain
  taken := howner
  eventFd i := (hs.up_of_accepts hmain i).1
  handles i := (hs.up_of_accepts hmain i).2
  registered i := by rw [hs.registry, hs.registered_of_accepts hmain, if_pos rfl]
  unoccupied := hs.pool.owners fun i => ⟨owner i, howner i⟩
  noneWaits i := hs.pool.not_mem_of_runs (howner i)

/-- A service in the queue waits behind services only, and there is a free thread
for each of them. -/
theorem of_queued (hs : Inv hasher buff s) {i : Fin n}
    (hqueued : .service i ∈ s.pool.taskQueue.elements) :
    .application ∉ s.pool.taskQueue.elements ∧
      s.pool.taskQueue.elements.length ≤ count ThreadPc.isAtSyncGet s.pool.threads := by
  have hpool := hs.pool
  have hbefore : s.main ≠ .inAcceptService := by
    intro hmain
    obtain ⟨t, hat⟩ := hs.runs_of_accepts hmain i
    exact hpool.not_mem_of_runs hat hqueued
  have hcreated : s.main.created (n + m) = n + m := by
    cases hmain : s.main with
    | startThread created =>
        have hplaced := hpool.placed i
        have hpos := List.count_pos_iff.mpr hqueued
        rw [hmain] at hplaced
        simp only [MainPc.posted, Nat.not_lt_zero, if_false] at hplaced
        omega
    | _ => rfl
  have hlength := hpool.length_add_le hcreated hbefore
  exact ⟨(hpool.servicesOnly hbefore).1, by omega⟩

variable [DecidableEq τ]

theorem ready_of_run (hs : Inv hasher buff s) (hmain : s.main = .inAcceptService)
    {owner : Fin n → Fin (n + m)} (howner : ∀ i, s.pool.threads (owner i) = .inService i)
    {bs : List (Action n m τ)} {u : TcpServer n m τ}
    (hrun : Transition.run (TcpServer.step hasher) s bs = some u) : Ready hasher owner u := by
  have hstays : ∀ (v : TcpServer n m τ) a w, (Inv hasher buff v ∧ v.main = .inAcceptService ∧
      ∀ i, v.pool.threads (owner i) = .inService i) → TcpServer.step hasher v a = some w →
      Inv hasher buff w ∧ w.main = .inAcceptService ∧
        ∀ i, w.pool.threads (owner i) = .inService i := by
    rintro v a w ⟨hv, hvmain, hvowner⟩ h
    have hkeeps := hv.keepsServices (moves_of_step h)
    exact ⟨hv.step h, (moves_of_step h).accepts hvmain, fun i => hkeeps _ i (hvowner i)⟩
  obtain ⟨hu, hmain', howner'⟩ := Transition.run_invariant hstays ⟨hs, hmain, howner⟩ hrun
  exact hu.ready hmain' howner'

end Inv

omit [Fintype τ] in
theorem get_isSome [DecidableEq τ] {s : TcpServer n m τ} {task : SpTask (Fin n)}
    (hvalid : s.pool.taskQueue.Valid) (hqueued : task ∈ s.pool.taskQueue.elements) {t : Fin (n + m)}
    (hat : s.pool.threads t = .atSyncGet) : (step hasher s (.thread t)).isSome := by
  have hsome : s.pool.taskQueue.tail ≠ s.pool.taskQueue.head := by
    intro hempty
    rw [hvalid.empty_iff.mp hempty] at hqueued
    simp at hqueued
  simp [step, threadStep, hat, ThreadPool.syncGetOneTask, ConcurrentRingBuffer.syncGet, hsome]

section Runs

variable [DecidableEq τ] [NeZero n]

theorem inv_of_run (taskBuff : ℕ → SpTask (Fin n)) {as : List (Action n m τ)}
    {s : TcpServer n m τ}
    (hrun : Transition.run (step hasher) (start taskBuff buff) as = some s) :
    Inv hasher buff s :=
  Transition.run_invariant (fun _ _ _ hs h => hs.step h) (inv_start taskBuff buff) hrun

/-- No assertion of `start()` fails: a thread that runs a service can go on until it is
in the loop. -/
theorem gets_into_loop (taskBuff : ℕ → SpTask (Fin n)) (msgBuff : ℕ → Message)
    {as : List (Action n m τ)} {s : TcpServer n m τ}
    (hrun : Transition.run (step hasher) (start taskBuff msgBuff) as = some s)
    {t : Fin (n + m)} {i : Fin n} (hat : s.pool.threads t = .inService i) :
    (s.services (some i)).pc = .inLoop ∨ (step hasher s (.thread t)).isSome := by
  by_cases hpc : (s.services (some i)).pc = .inLoop
  · exact .inl hpc
  · refine .inr ?_
    rw [step, threadStep, hat]
    exact (inv_of_run taskBuff hrun).startStep_isSome hpc

/-- When the accept service runs, every service is up and stays up; until then a
service in the queue waits for nothing but a thread that is free to take it, and the
thread that has taken it gets into its loop. -/
theorem accepts_only_when_ready (taskBuff : ℕ → SpTask (Fin n)) (msgBuff : ℕ → Message)
    {as : List (Action n m τ)} {s : TcpServer n m τ}
    (hrun : Transition.run (step hasher) (start taskBuff msgBuff) as = some s) :
    (s.main = .inAcceptService → ∃ owner : Fin n → Fin (n + m), Function.Injective owner ∧
      ∀ bs u, Transition.run (step hasher) s bs = some u → Ready hasher owner u) ∧
    (∀ i, s.accepting = some i →
      (s.services (some i)).hasEventFd = true ∧ (s.services (some i)).Handles) ∧
    (∀ t i, s.pool.threads t = .inService i →
      (s.services (some i)).pc = .inLoop ∨ (step hasher s (.thread t)).isSome) ∧
    ∀ i, .service i ∈ s.pool.taskQueue.elements →
      .application ∉ s.pool.taskQueue.elements ∧
        s.pool.taskQueue.elements.length ≤ count ThreadPc.isAtSyncGet s.pool.threads ∧
        ∀ t, s.pool.threads t = .atSyncGet → (step hasher s (.thread t)).isSome := by
  have hs := inv_of_run taskBuff hrun
  refine ⟨fun hmain => ?_, fun i hacc => ?_,
    fun t i hat => gets_into_loop taskBuff msgBuff hrun hat, fun i hqueued => ?_⟩
  · choose owner howner using hs.runs_of_accepts hmain
    refine ⟨owner, fun i j heq => ?_, fun bs u => hs.ready_of_run hmain howner⟩
    have hsame := howner i
    rw [heq, howner j] at hsame
    exact (ThreadPc.inService.inj hsame).symm
  · exact hs.up_of_accepts (hs.accepting (by simp [hacc])) i
  · obtain ⟨hservices, hlength⟩ := hs.of_queued hqueued
    exact ⟨hservices, hlength, fun t hat => get_isSome hs.pool.valid hqueued hat⟩

end Runs

/-- Two services and one more thread: the last thread takes the first service, and
the second accepted fd goes to it while a task of the application is in the queue. -/
def twoServices : List (Action 2 1 (Fin 1)) :=
  List.flatten [List.replicate 5 .main, [.thread 2, .main, .thread 0, .main],
    List.replicate 5 (.thread 2), [.main], List.replicate 6 (.thread 0),
    List.replicate 8 .main,
    [.thread 2, .postTask, .onAccept 9, .acceptPut, .acceptWrite, .mail (some 1) .fire,
      .onAccept 10, .acceptPut]]

theorem accepts_only_when_ready_twoServices :
    ∃ s : TcpServer 2 1 (Fin 1),
      Transition.run (step List.length) (start (fun _ => .application) fun _ => .other)
        twoServices = some s ∧ s.accepting = some 0 ∧
      ∃ owner : Fin 2 → Fin 3, Function.Injective owner ∧
        ∀ bs u, Transition.run (step List.length) s bs = some u →
          Ready List.length owner u := by
  have hends : (Transition.run (step List.length)
      (start (fun _ => .application) fun _ => .other) twoServices).map
        (fun s => (s.main, s.accepting)) = some (.inAcceptService, some 0) := by
    decide +kernel
  obtain ⟨s, hrun, heq⟩ := Option.map_eq_some_iff.mp hends
  obtain ⟨hmain, hacc⟩ := Prod.mk.inj heq
  refine ⟨s, hrun, hacc, ?_⟩
  exact (@accepts_only_when_ready 2 1 (Fin 1) _ List.length _ _ _ _ twoServices s hrun).1 hmain

end Banana.TcpServer
