import Banana.Examples.BenchmarkTest
import Banana.Examples.MapReduceServerInvariants

/-!
# The circular wait between the service and the pool

The service blocks in `syncPostTask` while the queue of the pool is full, and a
worker blocks in `notifyMsg` while the mailbox of the service is full.  Only the
service empties the mailbox and only the workers empty the queue.

The tasks queued, the workers holding a task or its answer and the messages
queued make up the load.  All of them wait for each other only when the load is
all that the two queues and the workers can hold, so the service is safe as long
as it starts to post below that load.  It is not safe otherwise: from there the
workers go on into the wait.
-/

namespace Banana.MapReduceServer

open Transition Threads

variable {κ τ : Type*}

@[simp] def ServicePc.isAtPost : ServicePc κ → Bool
  | .atPost _ _ _ => true
  | _ => false

@[simp] def ServicePc.hasNext : ServicePc κ → Bool
  | .atCount _ (_ :: _) => true
  | _ => false

theorem loopHead_isAtPost [DecidableEq κ] (s : State κ τ) (c : κ) (conn : MapReduceConnection)
    (paths : List (List UInt8)) :
    (loopHead s c conn paths).service.isAtPost = true ↔ paths ≠ [] := by
  cases paths <;> simp [loopHead]

theorem Served.isAtPost_step [DecidableEq κ] [DecidableEq τ] {files : FileSystem}
    {s t : State κ τ} {a : Action κ τ} (hs : Served s) (h : MapReduceServer.step files s a = some t)
    (hpost : t.service.isAtPost = true) :
    s.service.isAtPost = true ∧ a ≠ .post ∨
      (∃ c r, a = .readable c r ∧ ∃ vecBytes ∈ completedBody s c r,
        MapReduceConnection.filePaths vecBytes ≠ []) ∨
      a = .count ∧ s.service.hasNext = true := by
  cases moves_of_step h with
  | received c r conn stream retRecvStat vecBytes hconn hloop hpending hmay hout =>
      right
      left
      by_cases hbody : retRecvStat = .recved ∧ conn.stat = .recvBody
      · rw [MapReduceServer.recvCompleteCallback, if_pos hbody, loopHead_isAtPost] at hpost
        obtain ⟨rfl, hstat⟩ := hbody
        exact ⟨c, r, rfl, vecBytes, hs.completedBody_eq hconn hpending hmay hout hstat, hpost⟩
      · rw [MapReduceServer.recvCompleteCallback, if_neg hbody] at hpost
        simp [setConnection, hloop.1] at hpost
  | count c rest conn hservice hconn =>
      right
      right
      rw [loopHead_isAtPost] at hpost
      obtain ⟨path, rest, rfl⟩ := List.exists_cons_of_ne_nil hpost
      exact ⟨rfl, by simp [hservice]⟩
  | post c path rest hservice hroom => simp at hpost
  | mails a b mailbox hb hloop hmail =>
      refine .inl ⟨hpost, ?_⟩
      rintro rfl
      simp [mailboxAction] at hb
  | get mailbox msg hmail hmsg =>
      obtain ⟨-, -, -, hservice, -⟩ := onMessage_threads { s with mailbox := mailbox } msg
      rw [hservice] at hpost
      exact .inl ⟨hpost, by simp⟩
  | _ => exact .inl ⟨hpost, by simp⟩

/-- The service is blocked in `syncPostTask`, every worker in the `syncPut` of its
`notifyMsg` to the service. -/
structure CircularWait (s : State κ τ) : Prop where
  posting : s.service.isAtPost = true
  taskQueueFull : s.taskQueue.next s.taskQueue.head = s.taskQueue.tail
  sending : ∀ t, ∃ msg, s.mailbox.sender (some (some t)) = .atSyncPut msg
  mailboxFull :
    s.mailbox.recvMsgQueue.next s.mailbox.recvMsgQueue.head = s.mailbox.recvMsgQueue.tail

/-- A worker has a task or its answer in hand. -/
@[simp] def holds :
    Option (MapTask κ) × InteractiveTask.SenderPc (Message κ) → Bool
  | (some _, _) => true
  | (none, .atSyncPut _) => true
  | (none, _) => false

section Load

variable [Fintype τ]

def holding (running : τ → Option (MapTask κ))
    (sender : Option (Option τ) → InteractiveTask.SenderPc (Message κ)) : ℕ :=
  count holds fun t => (running t, sender (some (some t)))

/-- What is between the service and the pool, in either direction. -/
def load (s : State κ τ) : ℕ :=
  s.taskQueue.elements.length + holding s.running s.mailbox.sender +
    s.mailbox.recvMsgQueue.elements.length

def capacity (τ : Type*) [Fintype τ] (mailboxSize taskQueueSize : ℕ) : ℕ :=
  (taskQueueSize - 1) + Fintype.card τ + (mailboxSize - 1)

variable {mailboxSize taskQueueSize : ℕ} {s t : State κ τ}

theorem Inv.load_le (hs : Inv mailboxSize taskQueueSize s) :
    load s ≤ capacity τ mailboxSize taskQueueSize := by
  have htasks := hs.taskQueue.length_elements
  have hmessages := hs.mailbox.valid.length_elements
  have hworkers : holding s.running s.mailbox.sender ≤ Fintype.card τ := count_le_card _ _
  rw [hs.taskQueueSize] at htasks
  rw [hs.mailboxSize] at hmessages
  unfold load capacity
  omega

theorem Inv.circularWait_iff (hs : Inv mailboxSize taskQueueSize s) :
    CircularWait s ↔ s.service.isAtPost = true ∧
      load s = capacity τ mailboxSize taskQueueSize ∧ ∀ t, s.running t = none := by
  have htasks := hs.taskQueue.length_elements
  have hmessages := hs.mailbox.valid.length_elements
  have hworkers : holding s.running s.mailbox.sender ≤ Fintype.card τ := count_le_card _ _
  have htasksFull := hs.taskQueue.full_iff
  have hmessagesFull := hs.mailbox.valid.full_iff
  rw [hs.taskQueueSize] at htasks htasksFull
  rw [hs.mailboxSize] at hmessages hmessagesFull
  constructor
  · rintro ⟨hposting, hqueue, hsending, hmailbox⟩
    have hfree : ∀ t, s.running t = none := by
      intro t
      by_contra hbusy
      obtain ⟨msg, hmsg⟩ := hsending t
      simp [hs.worker t hbusy] at hmsg
    have hall : holding s.running s.mailbox.sender = Fintype.card τ := by
      apply count_eq_card_iff.mpr
      intro t
      obtain ⟨msg, hmsg⟩ := hsending t
      simp [hfree t, hmsg]
    rw [htasksFull] at hqueue
    rw [hmessagesFull] at hmailbox
    refine ⟨hposting, ?_, hfree⟩
    unfold load capacity
    omega
  · rintro ⟨hposting, hload, hfree⟩
    unfold load capacity at hload
    have hall : holding s.running s.mailbox.sender = Fintype.card τ := by omega
    refine ⟨hposting, htasksFull.mpr (by omega), fun t => ?_, hmessagesFull.mpr (by omega)⟩
    have hholds := count_eq_card_iff.mp hall t
    cases hsender : s.mailbox.sender (some (some t)) with
    | atSyncPut msg => exact ⟨msg, rfl⟩
    | idle => simp [hfree t, hsender] at hholds
    | atWrite => simp [hfree t, hsender] at hholds

theorem Inv.running_of_busy (hs : Inv mailboxSize taskQueueSize s) {t : τ}
    (hbusy : s.mailbox.sender (some (some t)) ≠ .idle) : s.running t = none := by
  by_contra hrunning
  exact hbusy (hs.worker t hrunning)

def adds : Action κ τ → ℕ
  | .post => 1
  | .put none => 1
  | _ => 0

def takesOff : Action κ τ → ℕ
  | .lockFails _ => 1
  | .get => 1
  | _ => 0

variable [DecidableEq τ]

theorem holding_update_running (running : τ → Option (MapTask κ))
    (sender : Option (Option τ) → InteractiveTask.SenderPc (Message κ)) (t : τ)
    (o : Option (MapTask κ)) :
    holding (Function.update running t o) sender +
        (if holds (running t, sender (some (some t))) then 1 else 0) =
      holding running sender + if holds (o, sender (some (some t))) then 1 else 0 := by
  have hupdate : (fun t' => (Function.update running t o t', sender (some (some t')))) =
      Function.update (fun t' => (running t', sender (some (some t')))) t
        (o, sender (some (some t))) := by
    funext t'
    by_cases htt : t' = t
    · subst t'
      simp
    · simp [Function.update_of_ne htt]
  rw [holding, hupdate]
  exact count_update holds (fun t' => (running t', sender (some (some t')))) t _

theorem holding_update_sender (running : τ → Option (MapTask κ))
    (sender : Option (Option τ) → InteractiveTask.SenderPc (Message κ)) (t : τ)
    (pc : InteractiveTask.SenderPc (Message κ)) :
    holding running (Function.update sender (some (some t)) pc) +
        (if holds (running t, sender (some (some t))) then 1 else 0) =
      holding running sender + if holds (running t, pc) then 1 else 0 := by
  have hupdate : (fun t' =>
        (running t', Function.update sender (some (some t)) pc (some (some t')))) =
      Function.update (fun t' => (running t', sender (some (some t')))) t (running t, pc) := by
    funext t'
    by_cases htt : t' = t
    · subst t'
      simp
    · simp [htt]
  rw [holding, hupdate]
  exact count_update holds (fun t' => (running t', sender (some (some t')))) t _

theorem holding_update_accept (running : τ → Option (MapTask κ))
    (sender : Option (Option τ) → InteractiveTask.SenderPc (Message κ))
    (pc : InteractiveTask.SenderPc (Message κ)) :
    holding running (Function.update sender (some none) pc) = holding running sender := by
  simp [holding]

variable {a : Action κ τ}

theorem Inv.load_put (hs : Inv mailboxSize taskQueueSize s) {sender : Option τ}
    {mailbox : InteractiveTask.Mailbox (Message κ) (Option τ)}
    (hmail : InteractiveTask.step s.mailbox (.syncPut (some sender)) = some mailbox) :
    load { s with mailbox := mailbox } = load s + if sender = none then 1 else 0 := by
  cases InteractiveTask.moves_of_step hmail with
  | syncPut _ msg hat hroom =>
      have hqueue := hs.mailbox.valid.elements_push msg hroom
      simp only [load, hqueue, List.length_append, List.length_singleton]
      cases sender with
      | none =>
          rw [holding_update_accept]
          simp only [if_true]
          omega
      | some t =>
          have hfree := hs.running_of_busy (t := t) (by simp [hat])
          have hworkers := holding_update_sender s.running s.mailbox.sender t .atWrite
          simp [hfree, hat] at hworkers
          simp only [reduceCtorEq, if_false]
          omega

theorem Inv.load_write (hs : Inv mailboxSize taskQueueSize s) {sender : Option τ}
    {mailbox : InteractiveTask.Mailbox (Message κ) (Option τ)}
    (hmail : InteractiveTask.step s.mailbox (.write (some sender)) = some mailbox) :
    load { s with mailbox := mailbox } = load s := by
  cases InteractiveTask.moves_of_step hmail with
  | write _ hat =>
      cases sender with
      | none => simp only [load, holding_update_accept]
      | some t =>
          have hfree := hs.running_of_busy (t := t) (by simp [hat])
          have hworkers := holding_update_sender s.running s.mailbox.sender t .idle
          simp [hfree, hat] at hworkers
          simp only [load, hworkers]

theorem Inv.load_mails (hs : Inv mailboxSize taskQueueSize s)
    {b : InteractiveTask.Action (Message κ) (Option τ)}
    {mailbox : InteractiveTask.Mailbox (Message κ) (Option τ)} (hb : mailboxAction a = some b)
    (hmail : InteractiveTask.step s.mailbox b = some mailbox) :
    load { s with mailbox := mailbox } + takesOff a = load s + adds a := by
  cases a <;> simp only [mailboxAction, Option.some.injEq, reduceCtorEq] at hb <;> subst b
  case put sender =>
    have hput := hs.load_put hmail
    cases sender <;> simpa [adds, takesOff] using hput
  case write sender =>
    have hwrite := hs.load_write hmail
    simpa [adds, takesOff] using hwrite
  all_goals
    cases InteractiveTask.moves_of_step hmail
    rfl

variable [DecidableEq κ] {files : FileSystem}

theorem Inv.load_step (hs : Inv mailboxSize taskQueueSize s)
    (h : MapReduceServer.step files s a = some t) :
    load t + takesOff a = load s + adds a := by
  cases moves_of_step h with
  | accept c mailbox hnew hmail =>
      cases InteractiveTask.moves_of_step hmail with
      | notifyMsg _ _ hidle hmay =>
          simp only [load, holding_update_accept, adds, takesOff]
  | receives c r conn stream hconn hloop hpending hmay hout => rfl
  | received c r conn stream retRecvStat vecBytes hconn hloop hpending hmay hout =>
      obtain ⟨hmailbox, htaskQueue, hrunning⟩ := recvCompleteCallback_threads s c
        { conn with stream := stream } retRecvStat vecBytes
      simp only [load, hmailbox, htaskQueue, hrunning, adds, takesOff]
  | sends c r conn stream hconn hloop hpending hmay hout => rfl
  | sent c r conn stream retSendStat hconn hloop hpending hmay hout => rfl
  | post c path rest hservice hroom =>
      have hqueue := hs.taskQueue.elements_push ⟨c, path⟩ hroom
      simp only [load, hqueue, List.length_append, List.length_singleton, adds, takesOff]
      omega
  | count c rest conn hservice hconn =>
      obtain ⟨hmailbox, htaskQueue, hrunning⟩ := loopHead_threads s c conn.countTask rest
      simp only [load, hmailbox, htaskQueue, hrunning, adds, takesOff]
  | take t hfree hidle hsome =>
      have hqueue := hs.taskQueue.elements_pop hsome
      have hworkers := holding_update_running s.running s.mailbox.sender t
        (some (s.taskQueue.buff s.taskQueue.tail))
      simp [hfree, hidle] at hworkers
      simp only [load, hqueue, List.length_cons, hworkers, adds, takesOff]
      omega
  | lockFails t task conn hrunning hconn hgone =>
      have hidle := hs.worker t (by simp [hrunning])
      have hworkers := holding_update_running s.running s.mailbox.sender t none
      simp [hrunning, hidle] at hworkers
      simp only [load, adds, takesOff]
      omega
  | compute t junk task file mailbox hrunning hfile hmail =>
      cases InteractiveTask.moves_of_step hmail with
      | notifyMsg _ _ hidle hmay =>
          have hfree := holding_update_running s.running s.mailbox.sender t none
          have hsends := holding_update_sender (Function.update s.running t none) s.mailbox.sender t
            (.atSyncPut (.mapDone task.connection (MapReduceConnection.mapFunction file junk)))
          simp [hrunning, hidle] at hfree hsends
          simp only [load, adds, takesOff]
          omega
  | mails a b mailbox hb hloop hmail => exact hs.load_mails hb hmail
  | get mailbox msg hmail hmsg =>
      obtain ⟨hmailbox, htaskQueue, hrunning, -⟩ :=
        onMessage_threads { s with mailbox := mailbox } msg
      simp only [load, hmailbox, htaskQueue, hrunning, adds, takesOff]
      cases InteractiveTask.moves_of_step hmail with
      | syncGet hat hsome =>
          have hqueue := hs.mailbox.valid.elements_pop hsome
          simp only [hqueue, List.length_cons]
          omega

theorem Inv.load_run {as : List (Action κ τ)} (hs : Inv mailboxSize taskQueueSize s)
    (hrun : run (MapReduceServer.step files) s as = some t) :
    load t + (as.map takesOff).sum = load s + (as.map adds).sum := by
  induction as generalizing s with
  | nil =>
      rw [← Option.some.inj hrun]
      rfl
  | cons a as ih =>
      obtain ⟨u, hu, ht⟩ := run_cons_eq_some.mp hrun
      have hload := hs.load_step hu
      have hrest := ih (hs.step hu) ht
      simp only [List.map_cons, List.sum_cons]
      omega

omit [DecidableEq κ] [DecidableEq τ] in
theorem load_start (hmailbox : 1 ≤ mailboxSize) (htaskQueue : 1 ≤ taskQueueSize)
    (messages : ℕ → Message κ) (tasks : ℕ → MapTask κ) :
    load (start mailboxSize taskQueueSize messages tasks : State κ τ) = 0 := by
  have hnobody : holding (fun _ : τ => (none : Option (MapTask κ))) (fun _ => .idle) = 0 :=
    count_eq_zero_iff.mpr fun _ => rfl
  simp [load, start, InteractiveTask.start, hmailbox, htaskQueue, hnobody]

/-! ## Posting below capacity -/

/-- The condition on a step: the service starts to post only while the load is below
`K`, and the accept service does not fill it up while the service posts. -/
def Spare (K : ℕ) (s : State κ τ) : Action κ τ → Prop
  | .readable c r => ∀ vecBytes ∈ completedBody s c r,
      MapReduceConnection.filePaths vecBytes ≠ [] → load s < K
  | .count => s.service.hasNext = true → load s < K
  | .put none => s.service.isAtPost = true → load s + 1 < K
  | _ => True

instance (K : ℕ) (s : State κ τ) : ∀ a, Decidable (Spare K s a)
  | .readable c r => inferInstanceAs (Decidable (∀ vecBytes ∈ completedBody s c r,
      MapReduceConnection.filePaths vecBytes ≠ [] → load s < K))
  | .count => inferInstanceAs (Decidable (s.service.hasNext = true → load s < K))
  | .put none => inferInstanceAs (Decidable (s.service.isAtPost = true → load s + 1 < K))
  | .put (some _) | .accept _ | .writable _ _ | .post | .take _ | .lockFails _ | .compute _ _
  | .write _ | .fire | .read | .get | .finish => isTrue trivial

def Safe (K : ℕ) (s : State κ τ) : Prop := s.service.isAtPost = true → load s < K

theorem Safe.step {K : ℕ} (hs : Inv mailboxSize taskQueueSize s) (hserved : Served s)
    (hsafe : Safe K s) (hspare : Spare K s a) (h : MapReduceServer.step files s a = some t) :
    Safe K t := by
  intro hpost
  have hload := hs.load_step h
  rcases hserved.isAtPost_step h hpost with ⟨hold, hno⟩ |
    ⟨c, r, rfl, vecBytes, hbody, hpaths⟩ | ⟨rfl, hnext⟩
  · have hlt := hsafe hold
    by_cases hput : a = .put none
    · subst a
      have hroom : MapReduceServer.load s + 1 < K := hspare hold
      simp only [adds, takesOff] at hload
      omega
    · have hadds : adds a = 0 := by
        unfold adds
        split
        · exact absurd rfl hno
        · exact absurd rfl hput
        · rfl
      omega
  · have hlt : MapReduceServer.load s < K := hspare vecBytes hbody hpaths
    simp only [adds, takesOff] at hload
    omega
  · have hlt : MapReduceServer.load s < K := hspare hnext
    simp only [adds, takesOff] at hload
    omega

theorem Safe.full_of_not_spare (hs : Inv mailboxSize taskQueueSize s)
    (hsafe : Safe (capacity τ mailboxSize taskQueueSize) s)
    (hspare : ¬ Spare (capacity τ mailboxSize taskQueueSize) s a)
    (h : MapReduceServer.step files s a = some t) :
    t.service.isAtPost = true ∧ load t = capacity τ mailboxSize taskQueueSize := by
  have hload := hs.load_step h
  have hle := (hs.step h).load_le
  have hle' := hs.load_le
  unfold Spare at hspare
  split at hspare
  · next c r =>
      push Not at hspare
      obtain ⟨vecBytes, hcompleted, hpaths, hfull⟩ := hspare
      obtain ⟨conn, hconn, hbody, hreceived⟩ := completedBody_eq_some.mp hcompleted
      simp only [adds, takesOff] at hload
      refine ⟨?_, by omega⟩
      have hcall := Stream.recvOnePack_of_received hreceived
      cases moves_of_step h with
      | receives _ _ conn' stream hconn' hloop hpending hmay hout =>
          obtain rfl : conn = conn' := Option.some.inj (hconn.symm.trans hconn')
          simp [hout] at hcall
      | received _ _ conn' stream retRecvStat vecBytes' hconn' hloop hpending hmay hout =>
          obtain rfl : conn = conn' := Option.some.inj (hconn.symm.trans hconn')
          rw [hout] at hcall
          obtain ⟨rfl, rfl⟩ : retRecvStat = .recved ∧ vecBytes' = vecBytes := by simpa using hcall
          rw [recvCompleteCallback, if_pos ⟨rfl, hbody⟩, loopHead_isAtPost]
          exact hpaths
      | mails _ b mailbox hb hloop hmail => simp [mailboxAction] at hb
  · push Not at hspare
    obtain ⟨hnext, hfull⟩ := hspare
    simp only [adds, takesOff] at hload
    refine ⟨?_, by omega⟩
    cases moves_of_step h with
    | count c rest conn hservice hconn =>
        rw [loopHead_isAtPost]
        rintro rfl
        simp [hservice] at hnext
    | mails _ b mailbox hb hloop hmail => simp [mailboxAction] at hb
  · push Not at hspare
    obtain ⟨hpost, hfull⟩ := hspare
    have hlt := hsafe hpost
    simp only [adds, takesOff] at hload
    refine ⟨?_, by omega⟩
    cases moves_of_step h with
    | mails _ b mailbox hb hloop hmail => exact hpost
  · exact absurd trivial hspare

theorem Inv.compute_isSome (hs : Inv mailboxSize taskQueueSize s) {t : τ} {task : MapTask κ}
    (hrunning : s.running t = some task) (hfile : files.content task.filePath ≠ none)
    (junk : NativeInt) : (MapReduceServer.step files s (.compute t junk)).isSome := by
  obtain ⟨file, hfile⟩ := Option.ne_none_iff_exists'.mp hfile
  have hidle := hs.worker t (by simp [hrunning])
  simp [MapReduceServer.step, hrunning, hfile, mailboxStep, InteractiveTask.step, hidle,
    InteractiveTask.maySend]

/-- From a full load the workers go on into the circular wait. -/
theorem Inv.circularWait_of_full (hs : Inv mailboxSize taskQueueSize s)
    (hpost : s.service.isAtPost = true) (hload : load s = capacity τ mailboxSize taskQueueSize)
    (hfiles : ∀ t task, s.running t = some task → files.content task.filePath ≠ none) :
    ∃ as u, run (MapReduceServer.step files) s as = some u ∧ CircularWait u := by
  induction hn : count Option.isSome s.running using Nat.strong_induction_on generalizing s with
  | _ n ih =>
      subst n
      by_cases hfree : ∀ t, s.running t = none
      · exact ⟨[], s, rfl, hs.circularWait_iff.mpr ⟨hpost, hload, hfree⟩⟩
      · push Not at hfree
        obtain ⟨t, hbusy⟩ := hfree
        obtain ⟨task, hrunning⟩ := Option.ne_none_iff_exists'.mp hbusy
        obtain ⟨u, hu⟩ := Option.isSome_iff_exists.mp
          (hs.compute_isSome hrunning (hfiles t task hrunning) 0)
        have hload' := hs.load_step hu
        simp only [adds, takesOff, add_zero] at hload'
        have hcount := count_update Option.isSome s.running t none
        simp [hrunning] at hcount
        obtain ⟨hservice, hrunning'⟩ :
            u.service = s.service ∧ u.running = Function.update s.running t none := by
          cases moves_of_step hu with
          | compute _ _ task' file mailbox hrunning' hfile hmail => exact ⟨rfl, rfl⟩
          | mails _ b mailbox hb hloop hmail => simp [mailboxAction] at hb
        have hfewer : count Option.isSome u.running < count Option.isSome s.running := by
          rw [hrunning']
          omega
        have hfiles' : ∀ t' task', u.running t' = some task' →
            files.content task'.filePath ≠ none := by
          intro t' task' ht'
          apply hfiles t' task'
          rw [hrunning'] at ht'
          by_cases htt : t' = t
          · simp [htt] at ht'
          · rwa [Function.update_of_ne htt] at ht'
        obtain ⟨as, v, hrun, hwait⟩ := ih _ hfewer (hs.step hu) (hservice ▸ hpost)
          (hload'.trans hload) hfiles' rfl
        exact ⟨_ :: as, v, run_cons_eq_some.mpr ⟨u, hu, hrun⟩, hwait⟩

/-- No run that starts to post below capacity only reaches the circular wait; and
the first step that starts to post at capacity opens the way into it, unless a file
is missing. -/
theorem no_circular_wait_of_spare (hmailbox : 1 ≤ mailboxSize) (htaskQueue : 1 ≤ taskQueueSize)
    {messages : ℕ → Message κ} {tasks : ℕ → MapTask κ} {as : List (Action κ τ)}
    (hal : Along (Spare (capacity τ mailboxSize taskQueueSize)) (MapReduceServer.step files)
      (start mailboxSize taskQueueSize messages tasks) as)
    (hrun : run (MapReduceServer.step files) (start mailboxSize taskQueueSize messages tasks) as =
      some s) :
    ¬ CircularWait s ∧
      ∀ a t, MapReduceServer.step files s a = some t →
        ¬ Spare (capacity τ mailboxSize taskQueueSize) s a →
        (∀ w task, t.running w = some task → files.content task.filePath ≠ none) →
        ∃ bs u, run (MapReduceServer.step files) t bs = some u ∧ CircularWait u := by
  have hall := run_invariant_along
    (I := fun s => Inv mailboxSize taskQueueSize s ∧ Served s ∧
      Safe (capacity τ mailboxSize taskQueueSize) s)
    (fun s a t hs hspare h => ⟨hs.1.step h, hs.2.1.step h, hs.2.2.step hs.1 hs.2.1 hspare h⟩)
    ⟨inv_start hmailbox htaskQueue messages tasks, served_start _ _ _ _, nofun⟩ hal hrun
  obtain ⟨hs, hserved, hsafe⟩ := hall
  constructor
  · intro hwait
    obtain ⟨hpost, hload, -⟩ := hs.circularWait_iff.mp hwait
    exact (hsafe hpost).ne hload
  · intro a t h hspare hfiles
    obtain ⟨hpost, hload⟩ := hsafe.full_of_not_spare hs hspare h
    exact (hs.step h).circularWait_of_full hpost hload hfiles

end Load

section Runs

open MapReduceConnection (WellFormed)

/-- One file, `a`, with the number 3. -/
def oneFile : FileSystem where
  content path := if path = [97] then some ⟨[.ofNat 3], none⟩ else none
  content_nil := rfl

/-- One worker and room for one task and one message. -/
def smallServer : State Unit (Fin 1) := start 2 2 (fun _ => .newConnect ()) fun _ => ⟨(), []⟩

def newConnection : List (Action Unit τ) :=
  [.accept (), .put none, .write none, .fire, .read, .get, .finish]

def threeNamesBody : List UInt8 := [97, 32, 97, 32, 97]

/-- A request that names `a` three times; when the service has posted all of them, the
mailbox, the worker and the task queue have one each. -/
def threeNames : List (Action Unit (Fin 1)) :=
  newConnection ++
    [.readable () (.data [5, 0, 0, 0]), .readable () (.data threeNamesBody), .post, .count,
      .take 0, .post, .count, .compute 0 0, .put (some 0), .write (some 0), .take 0, .post,
      .count]

theorem no_circular_wait_of_spare_threeNames :
    ∃ s, run (step oneFile) smallServer threeNames = some s ∧
      s.requests () = [threeNamesBody] ∧ load s = capacity (Fin 1) 2 2 ∧ ¬ CircularWait s := by
  have hfacts : (run (step oneFile) smallServer threeNames).map (fun s =>
      (s.requests (), decide (load s = capacity (Fin 1) 2 2))) = some ([threeNamesBody], true) := by
    decide +kernel
  obtain ⟨s, hrun, hs⟩ := Option.map_eq_some_iff.mp hfacts
  simp only [Prod.mk.injEq, decide_eq_true_eq] at hs
  have hal : Along (Spare (capacity (Fin 1) 2 2)) (step oneFile) smallServer threeNames := by
    decide +kernel
  exact ⟨s, hrun, hs.1, hs.2, (no_circular_wait_of_spare (by decide) (by decide) hal hrun).1⟩

def fourNamesBody : List UInt8 := [97, 32, 97, 32, 97, 32, 97]

/-- A request that names `a` four times; the worker answers the first task and has
computed the second when the service posts the fourth. -/
def fourNames : List (Action Unit (Fin 1)) :=
  newConnection ++
    [.readable () (.data [7, 0, 0, 0]), .readable () (.data fourNamesBody), .post, .count,
      .take 0, .post, .count, .compute 0 0, .put (some 0), .write (some 0),
      .take 0, .post, .count, .compute 0 0]

theorem circular_wait_fourNames :
    WellFormed oneFile fourNamesBody ∧ ∃ s, run (step oneFile) smallServer fourNames = some s ∧
      s.requests () = [fourNamesBody] ∧ CircularWait s := by
  have hpaths : MapReduceConnection.filePaths fourNamesBody = List.replicate 4 [97] := by decide
  refine ⟨⟨by simp [hpaths], fun path hpath => ?_⟩, ?_⟩
  · rw [hpaths] at hpath
    obtain rfl := List.eq_of_mem_replicate hpath
    exact ⟨_, rfl, by simp⟩
  · have hfacts : (run (step oneFile) smallServer fourNames).map (fun s =>
        (s.requests (), s.service.isAtPost,
          decide (s.taskQueue.next s.taskQueue.head = s.taskQueue.tail),
          holds (none, s.mailbox.sender (some (some 0))),
          decide (s.mailbox.recvMsgQueue.next s.mailbox.recvMsgQueue.head =
            s.mailbox.recvMsgQueue.tail))) = some ([fourNamesBody], true, true, true, true) := by
      decide +kernel
    obtain ⟨s, hrun, hs⟩ := Option.map_eq_some_iff.mp hfacts
    simp only [Prod.mk.injEq, decide_eq_true_eq] at hs
    obtain ⟨hrequests, hpost, hqueue, hsender, hmailbox⟩ := hs
    refine ⟨s, hrun, hrequests, hpost, hqueue, fun t => ?_, hmailbox⟩
    obtain rfl := Subsingleton.elim t 0
    cases hpc : s.mailbox.sender (some (some 0)) with
    | atSyncPut msg => exact ⟨msg, rfl⟩
    | idle => simp [hpc] at hsender
    | atWrite => simp [hpc] at hsender

end Runs

end Banana.MapReduceServer
