import Banana.Examples.MapReduceServerInvariants
import Banana.Library.ScatterGather

/-!
# The server refines scatter and gather

Seen from one connection, the server is a coordinator that scatters the file
names of its requests and gathers the numbers of its map tasks: they are in the
queue of the pool or at a worker, then in a worker's hands or in the mailbox.
As long as the connection is in the map, nothing of it is lost.
-/

namespace Banana

open Threads

namespace MapReduceConnection

/-- `curMaxNum_`, if an answer has come. -/
def best (c : MapReduceConnection) : WithBot NativeInt := if c.firstCome then ⊥ else c.curMaxNum

theorem reduce_eq_sup (last cur : NativeInt) : reduce last cur = last ⊔ cur :=
  (max_def_lt last cur).symm

/-- An answer counts down the tasks and takes part in the maximum. -/
theorem countAnswer_spec (c : MapReduceConnection) (maxNum : NativeInt) :
    (c.countAnswer maxNum).taskCount = c.taskCount - 1 ∧
      (c.countAnswer maxNum).best = c.best ⊔ (maxNum : WithBot NativeInt) ∧
      ((c.countAnswer maxNum).curMaxNum : WithBot NativeInt) = (c.countAnswer maxNum).best := by
  unfold countAnswer best
  cases hfirst : c.firstCome with
  | true => simp
  | false => simp [reduce_eq_sup, WithBot.coe_sup]

theorem onMessage_counters (c : MapReduceConnection) (maxNum : NativeInt) :
    (c.onMessage maxNum).1.taskCount = (c.countAnswer maxNum).taskCount ∧
      (c.onMessage maxNum).1.best = (c.countAnswer maxNum).best := by
  unfold onMessage
  split_ifs <;> exact ⟨rfl, rfl⟩

theorem onMessage_reply (c : MapReduceConnection) (maxNum : NativeInt) :
    (c.onMessage maxNum).2 = if (c.countAnswer maxNum).taskCount = 0 then
      some (NativeInt.encode (c.countAnswer maxNum).curMaxNum) else none := by
  unfold onMessage
  split_ifs <;> rfl

/-- The same tasks to wait for, and the same maximum so far. -/
def SameCounters (c d : MapReduceConnection) : Prop :=
  d.taskCount = c.taskCount ∧ d.best = c.best

theorem recvCompleteCallback_counters {c : MapReduceConnection} {retRecvStat : StreamStat}
    {vecBytes : List UInt8} (h : ¬ (retRecvStat = .recved ∧ c.stat = .recvBody))
    (hstat : retRecvStat = .recverr ∨ retRecvStat = .recved) :
    SameCounters c (c.recvCompleteCallback retRecvStat vecBytes).1 := by
  rcases hstat with rfl | rfl
  · simp only [recvCompleteCallback, if_true]
    exact ⟨rfl, rfl⟩
  · cases hhead : c.stat with
    | recvBody => exact absurd ⟨rfl, hhead⟩ h
    | recvHead =>
        simp only [recvCompleteCallback, hhead, recvHeadDone]
        split_ifs <;> exact ⟨rfl, rfl⟩

theorem sendCompleteCallback_counters (c : MapReduceConnection) (retSendStat : StreamStat) :
    SameCounters c (c.sendCompleteCallback retSendStat) := by
  unfold sendCompleteCallback
  split_ifs <;> exact ⟨rfl, rfl⟩

theorem inMap_of_recvCompleteCallback {c : MapReduceConnection} {retRecvStat : StreamStat}
    {vecBytes : List UInt8} (h : (c.recvCompleteCallback retRecvStat vecBytes).1.inMap = true) :
    c.inMap = true := by
  by_cases herr : retRecvStat = .recverr
  · simp [recvCompleteCallback, herr, destroy] at h
  · cases hstat : c.stat with
    | recvHead =>
        simp only [recvCompleteCallback, herr, hstat, if_false, recvHeadDone] at h
        split_ifs at h <;> exact h
    | recvBody =>
        simp only [recvCompleteCallback, herr, hstat, if_false, foldl_countTask] at h
        exact h

theorem inMap_of_sendCompleteCallback {c : MapReduceConnection} {retSendStat : StreamStat}
    (h : (c.sendCompleteCallback retSendStat).inMap = true) : c.inMap = true := by
  unfold sendCompleteCallback at h
  split_ifs at h
  · simp [destroy] at h
  · exact h

end MapReduceConnection

namespace MapReduceServer

open MapReduceConnection (SameCounters)

variable {κ τ : Type*}

/-- A connection that does not exist yet counts as one at its start. -/
def connectionOf (s : State κ τ) (c : κ) : MapReduceConnection := (s.connection c).getD .start

/-- The connection, if there is one, has not been removed. -/
def Open (s : State κ τ) (c : κ) : Prop := ∀ conn, s.connection c = some conn → conn.inMap = true

/-- A map task may compute `m` from the file, whatever its variable held before. -/
def computes (files : FileSystem) (path : List UInt8) (m : WithBot NativeInt) : Prop :=
  ∃ file junk, files.content path = some file ∧
    m = (MapReduceConnection.mapFunction file junk : NativeInt)

section Ledger

variable [DecidableEq κ]

theorem Open.set {s : State κ τ} {c d : κ} {conn : MapReduceConnection} (hopen : Open s c)
    (hmap : d = c → conn.inMap = true) : Open (setConnection s d conn) c := by
  intro conn' hconn'
  by_cases hdc : d = c
  · subst d
    obtain rfl : conn = conn' := by simpa [setConnection] using hconn'
    exact hmap rfl
  · apply hopen
    simpa [setConnection, Function.update_of_ne (Ne.symm hdc)] using hconn'

theorem Open.of_setConnection {s : State κ τ} {c d : κ} {conn' : MapReduceConnection}
    (hopen : Open (setConnection s d conn') c)
    (hkeep : ∀ conn, s.connection d = some conn → conn'.inMap = true → conn.inMap = true) :
    Open s c := by
  intro conn hconn
  by_cases hdc : d = c
  · subst d
    exact hkeep conn hconn (hopen conn' (by simp [setConnection]))
  · apply hopen
    simpa [setConnection, Function.update_of_ne (Ne.symm hdc)] using hconn

theorem Open.of_loopHead {s : State κ τ} {c d : κ} {conn' : MapReduceConnection}
    {paths : List (List UInt8)} (hopen : Open (loopHead s d conn' paths) c)
    (hkeep : ∀ conn, s.connection d = some conn → conn'.inMap = true → conn.inMap = true) :
    Open s c := by
  cases paths with
  | nil => exact @Open.of_setConnection _ _ _ s c d conn'.recvBodyDone hopen hkeep
  | cons path rest => exact @Open.of_setConnection _ _ _ s c d conn' hopen hkeep

/-- A connection that has been removed stays so. -/
theorem Open.of_step [DecidableEq τ] {files : FileSystem} {s t : State κ τ} {a : Action κ τ}
    {c : κ} (h : step files s a = some t) (hopen : Open t c) : Open s c := by
  cases moves_of_step h with
  | receives d r conn stream hconn hloop hpending hmay hout =>
      apply hopen.of_setConnection
      simp [hconn]
  | received d r conn stream retRecvStat vecBytes hconn hloop hpending hmay hout =>
      unfold recvCompleteCallback at hopen
      split_ifs at hopen
      · apply Open.of_loopHead (s := { s with requests := _ }) hopen
        simp [hconn]
      · apply hopen.of_setConnection
        rintro conn' hconn' hmap
        obtain rfl : conn = conn' := by simpa [hconn] using hconn'
        exact @MapReduceConnection.inMap_of_recvCompleteCallback { conn with stream := stream } _ _
          hmap
  | sends d r conn stream hconn hloop hpending hmay hout =>
      apply @Open.of_setConnection _ _ _ s c d { conn with stream := stream } hopen
      simp [hconn]
  | sent d r conn stream retSendStat hconn hloop hpending hmay hout =>
      apply @Open.of_setConnection _ _ _ s c d (MapReduceConnection.sendCompleteCallback
        { conn with stream := stream } retSendStat) hopen
      rintro conn' hconn' hmap
      obtain rfl : conn = conn' := by simpa [hconn] using hconn'
      exact @MapReduceConnection.inMap_of_sendCompleteCallback { conn with stream := stream } _ hmap
  | count d rest conn hservice hconn =>
      apply hopen.of_loopHead
      simp [hconn, MapReduceConnection.countTask]
  | get mailbox msg hmail hmsg =>
      have hhandles := handles_onMessage { s with mailbox := mailbox } msg
      generalize onMessage { s with mailbox := mailbox } msg = u at hhandles hopen
      cases hhandles with
      | starts d hconn =>
          refine hopen.of_setConnection fun conn' hconn' => ?_
          rw [hconn] at hconn'
          exact absurd hconn' (by simp)
      | delivers d conn maxNum hconn hmap =>
          apply @Open.of_setConnection _ _ _ s c d (conn.onMessage maxNum).1 hopen
          rintro conn' hconn' -
          obtain rfl : conn = conn' := Option.some.inj (hconn.symm.trans hconn')
          exact hmap
      | _ => exact hopen
  | _ => exact hopen

/-- The names of the request that are still to be posted for `c`. -/
def ServicePc.unposted (c : κ) : ServicePc κ → List (List UInt8)
  | .atLoop => []
  | .atPost d path rest => if d = c then path :: rest else []
  | .atCount d rest => if d = c then rest else []

/-- The task that is posted and not counted yet. -/
def ServicePc.uncounted (c : κ) : ServicePc κ → ℕ
  | .atCount d _ => if d = c then 1 else 0
  | _ => 0

def taskOf (c : κ) (task : MapTask κ) : Multiset (List UInt8) :=
  if task.connection = c then {task.filePath} else 0

def resultOf (c : κ) : Message κ → Multiset (WithBot NativeInt)
  | .newConnect _ => 0
  | .mapDone d maxNum => if d = c then {(maxNum : WithBot NativeInt)} else 0

theorem connectionOf_setConnection_self (s : State κ τ) (c : κ) (conn : MapReduceConnection) :
    connectionOf (setConnection s c conn) c = conn := by
  simp [connectionOf, setConnection]

theorem connectionOf_setConnection_of_ne (s : State κ τ) {c d : κ} (conn : MapReduceConnection)
    (hdc : d ≠ c) : connectionOf (setConnection s d conn) c = connectionOf s c := by
  simp [connectionOf, setConnection, Function.update_of_ne hdc.symm]

variable [Fintype τ]

/-- The tasks of `c` in the queue of the pool and with the workers. -/
def tasksOf (s : State κ τ) (c : κ) : Multiset (List UInt8) :=
  (s.taskQueue.elements.map (taskOf c)).sum + total (fun o => o.elim 0 (taskOf c)) s.running

/-- The ledger of a connection: what of its requests is still to be posted and counted,
which of its tasks are waiting or computed, which numbers are on their way to it, and
what it has counted, reduced and answered. -/
def ledger (s : State κ τ) (c : κ) : ScatterGather.State (List UInt8) (WithBot NativeInt) where
  requests := (s.requests c).map MapReduceConnection.filePaths
  unposted := s.service.unposted c
  uncounted := s.service.uncounted c
  taskCount := (connectionOf s c).taskCount
  tasks := tasksOf s c
  results := InteractiveTask.inTransit (resultOf c) s.mailbox
  reduced := (s.reduced c).map ((↑) : NativeInt → WithBot NativeInt)
  best := (connectionOf s c).best
  answers := (s.replies c).map fun bytes => (NativeInt.decode bytes : WithBot NativeInt)

variable {s : State κ τ} {c d : κ} {conn : MapReduceConnection}

theorem ledger_setConnection_of_ne (s : State κ τ) (conn : MapReduceConnection) (hdc : d ≠ c) :
    ledger (setConnection s d conn) c = ledger s c := by
  simp only [ledger, connectionOf_setConnection_of_ne s conn hdc]
  rfl

theorem ledger_setConnection (hcounters : d = c → SameCounters (connectionOf s c) conn) :
    ledger (setConnection s d conn) c = ledger s c := by
  by_cases hdc : d = c
  · subst d
    obtain ⟨htaskCount, hbest⟩ := hcounters rfl
    simp only [ledger, connectionOf_setConnection_self, htaskCount, hbest]
    rfl
  · exact ledger_setConnection_of_ne s conn hdc

theorem ledger_service (s : State κ τ) (c : κ) (service : ServicePc κ) :
    ledger { s with service := service } c =
      { ledger s c with unposted := service.unposted c, uncounted := service.uncounted c } := rfl

/-- Nothing is to be posted for a connection whose callback does not run. -/
theorem ledger_idle (hidle : s.service.poster ≠ some c) :
    (ledger s c).unposted = [] ∧ (ledger s c).uncounted = 0 := by
  change s.service.unposted c = [] ∧ s.service.uncounted c = 0
  cases hservice : s.service with
  | atLoop => exact ⟨rfl, rfl⟩
  | atPost e path rest =>
      have hec : e ≠ c := by
        rintro rfl
        simp [hservice, ServicePc.poster] at hidle
      exact ⟨if_neg hec, rfl⟩
  | atCount e rest =>
      have hec : e ≠ c := by
        rintro rfl
        simp [hservice, ServicePc.poster] at hidle
      exact ⟨if_neg hec, if_neg hec⟩

theorem ledger_service_of_idle {service : ServicePc κ} (hidle : s.service.poster ≠ some c)
    (hidle' : service.poster ≠ some c) : ledger { s with service := service } c = ledger s c := by
  obtain ⟨hunposted, huncounted⟩ := ledger_idle hidle
  obtain ⟨hunposted', huncounted'⟩ := @ledger_idle κ τ _ _ { s with service := service } c hidle'
  apply ScatterGather.State.ext <;> first | rfl | skip
  · exact hunposted'.trans hunposted.symm
  · exact huncounted'.trans huncounted.symm

theorem ledger_loopHead_self (s : State κ τ) (c : κ) (conn : MapReduceConnection)
    (paths : List (List UInt8)) :
    ledger (loopHead s c conn paths) c =
      { ledger s c with
        unposted := paths, uncounted := 0, taskCount := conn.taskCount, best := conn.best } := by
  cases paths with
  | nil =>
      rw [loopHead, ledger_service]
      simp only [ledger, connectionOf_setConnection_self]
      rfl
  | cons path rest =>
      rw [loopHead, ledger_service]
      simp only [ledger, connectionOf_setConnection_self, ServicePc.unposted, if_true]
      rfl

theorem ledger_loopHead_of_ne (conn : MapReduceConnection) (paths : List (List UInt8))
    (hdc : d ≠ c) (hidle : s.service.poster ≠ some c) :
    ledger (loopHead s d conn paths) c = ledger s c := by
  cases paths with
  | nil =>
      have hmoved := @ledger_service_of_idle κ τ _ _ (setConnection s d conn.recvBodyDone) c
        .atLoop hidle nofun
      exact hmoved.trans (ledger_setConnection_of_ne s _ hdc)
  | cons path rest =>
      have hmoved := @ledger_service_of_idle κ τ _ _ (setConnection s d conn) c
        (.atPost d path rest) hidle fun h => hdc (Option.some.inj h)
      exact hmoved.trans (ledger_setConnection_of_ne s _ hdc)

/-- An answer that the service hands to the connection is one that the coordinator
reduces. -/
theorem ledger_deliver_self (hconn : s.connection c = some conn) (maxNum : NativeInt)
    (results : Multiset (WithBot NativeInt)) (hresults : (ledger s c).results = results) :
    ledger (deliver s c conn maxNum) c = (ledger s c).reduce maxNum results := by
  obtain ⟨htaskCount, hbest, hcurMaxNum⟩ := conn.countAnswer_spec maxNum
  obtain ⟨htaskCount', hbest'⟩ := conn.onMessage_counters maxNum
  have hold : connectionOf s c = conn := by simp [connectionOf, hconn]
  have hnew : connectionOf (deliver s c conn maxNum) c = (conn.onMessage maxNum).1 :=
    connectionOf_setConnection_self s c _
  apply ScatterGather.State.ext <;> try rfl
  · change (connectionOf (deliver s c conn maxNum) c).taskCount = (connectionOf s c).taskCount - 1
    rw [hnew, hold, htaskCount', htaskCount]
  · exact hresults
  · have hreduced : (deliver s c conn maxNum).reduced c = s.reduced c ++ [maxNum] := by
      simp [deliver]
    simp only [ledger, ScatterGather.State.reduce, hreduced, List.map_append, List.map_singleton]
    rw [← Multiset.coe_add, Multiset.coe_singleton, add_comm, Multiset.singleton_add]
  · change (connectionOf (deliver s c conn maxNum) c).best = (connectionOf s c).best ⊔ _
    rw [hnew, hold, hbest', hbest]
  · change ((deliver s c conn maxNum).replies c).map _ = if (connectionOf s c).taskCount - 1 = 0
      then (ledger s c).answers ++ [(connectionOf s c).best ⊔ _] else (ledger s c).answers
    rw [hold, ← htaskCount, ← hbest, ← hcurMaxNum]
    simp only [deliver, Function.update_self, conn.onMessage_reply]
    split_ifs <;> simp [ledger]

theorem ledger_deliver_of_ne (conn : MapReduceConnection) (maxNum : NativeInt) (hdc : d ≠ c) :
    ledger (deliver s d conn maxNum) c = ledger s c := by
  rw [← ledger_setConnection_of_ne s (conn.onMessage maxNum).1 hdc]
  apply ScatterGather.State.ext <;> try rfl
  · simp only [ledger, deliver, Function.update_of_ne hdc.symm]
    rfl
  · simp only [ledger, deliver, Function.update_of_ne hdc.symm]
    rfl

theorem ledger_mailbox (s : State κ τ) (c : κ)
    (mailbox : InteractiveTask.Mailbox (Message κ) (Option τ)) :
    ledger { s with mailbox := mailbox } c =
      { ledger s c with results := InteractiveTask.inTransit (resultOf c) mailbox } := rfl

theorem ledger_mailbox_of_eq {mailbox : InteractiveTask.Mailbox (Message κ) (Option τ)}
    (hsame : InteractiveTask.inTransit (resultOf c) mailbox =
      InteractiveTask.inTransit (resultOf c) s.mailbox) :
    ledger { s with mailbox := mailbox } c = ledger s c := by
  rw [ledger_mailbox, hsame]
  rfl

theorem tasksOf_push (hs : s.taskQueue.Valid) (task : MapTask κ)
    (hroom : s.taskQueue.next s.taskQueue.head ≠ s.taskQueue.tail) :
    tasksOf { s with taskQueue := s.taskQueue.push task } c = taskOf c task + tasksOf s c := by
  simp only [tasksOf, hs.elements_push task hroom, List.map_append, List.sum_append,
    List.map_singleton, List.sum_singleton]
  rw [add_comm _ (taskOf c task), add_assoc]

variable {files : FileSystem} {mailboxSize taskQueueSize : ℕ}

theorem ledger_start (mailboxSize taskQueueSize : ℕ) (hmailbox : 1 ≤ mailboxSize)
    (htaskQueue : 1 ≤ taskQueueSize) (messages : ℕ → Message κ) (tasks : ℕ → MapTask κ) (c : κ) :
    ledger (start mailboxSize taskQueueSize messages tasks : State κ τ) c =
      ScatterGather.start := by
  apply ScatterGather.State.ext <;> try rfl
  · simp [ledger, tasksOf, start, htaskQueue, total, ScatterGather.start]
  · exact InteractiveTask.inTransit_start _ true hmailbox messages

/-- What the reached states have in common: the threads and queues are in order, and
the coordinator of each connection that is still in the map has lost nothing. -/
structure Reached (files : FileSystem) (mailboxSize taskQueueSize : ℕ) (s : State κ τ) : Prop where
  inv : Inv mailboxSize taskQueueSize s
  served : Served s
  bounded : ∀ c, ScatterGather.Bounded (ledger s c)
  lossless : ∀ c, Open s c → ScatterGather.Inv (computes files) (ledger s c)

theorem reached_start (hmailbox : 1 ≤ mailboxSize) (htaskQueue : 1 ≤ taskQueueSize)
    (messages : ℕ → Message κ) (tasks : ℕ → MapTask κ) :
    Reached files mailboxSize taskQueueSize
      (start mailboxSize taskQueueSize messages tasks : State κ τ) where
  inv := inv_start hmailbox htaskQueue messages tasks
  served := served_start _ _ _ _
  bounded c := by
    rw [ledger_start _ _ hmailbox htaskQueue]
    exact ScatterGather.bounded_start
  lossless c _ := by
    rw [ledger_start _ _ hmailbox htaskQueue]
    exact ScatterGather.inv_start

/-- What a step of the server is to the coordinator of `c`: none of its steps, or
one. -/
inductive Simulated (files : FileSystem) (s t : State κ τ) (c : κ) : Prop
  | stutters (hsame : ledger t c = ledger s c) : Simulated files s t c
  | steps (hstep : ScatterGather.Step (computes files) (¬ Open t c) (ledger s c) (ledger t c)) :
      Simulated files s t c

theorem Simulated.keeps {t : State κ τ} (h : Simulated files s t c) (hopen : Open t c)
    {P : ScatterGather.State (List UInt8) (WithBot NativeInt) → Prop} (hs : P (ledger s c))
    (hstep : ScatterGather.Step (computes files) False (ledger s c) (ledger t c) →
      P (ledger t c)) : P (ledger t c) := by
  cases h with
  | stutters hsame => rwa [hsame]
  | steps h =>
      apply hstep
      simpa [hopen] using h

/-- A body that has arrived is a request of its own connection and nothing for the
others. -/
theorem simulated_request {vecBytes : List UInt8} {conn' : MapReduceConnection}
    (hidle : s.service.poster ≠ some c) (hsame : d = c → SameCounters (connectionOf s c) conn') :
    Simulated files s
      (loopHead { s with requests := Function.update s.requests d (s.requests d ++ [vecBytes]) } d
        conn' (MapReduceConnection.filePaths vecBytes)) c := by
  obtain ⟨hunposted, huncounted⟩ := ledger_idle hidle
  by_cases hdc : d = c
  · subst d
    obtain ⟨htaskCount, hbest⟩ := hsame rfl
    have hledger : ledger
        (loopHead { s with requests := Function.update s.requests c (s.requests c ++ [vecBytes]) }
          c conn' (MapReduceConnection.filePaths vecBytes)) c =
        { ledger s c with
          requests := (ledger s c).requests ++ [MapReduceConnection.filePaths vecBytes]
          unposted := MapReduceConnection.filePaths vecBytes } := by
      rw [ledger_loopHead_self]
      apply ScatterGather.State.ext <;> try rfl
      · simp [ledger]
      · exact huncounted.symm
      · exact htaskCount
      · exact hbest
    apply Simulated.steps
    rw [hledger]
    exact .request _ _ hunposted huncounted
  · apply Simulated.stutters
    have hmoved := @ledger_loopHead_of_ne κ τ _ _
      { s with requests := Function.update s.requests d (s.requests d ++ [vecBytes]) } c d conn'
      (MapReduceConnection.filePaths vecBytes) hdc hidle
    rw [hmoved]
    simp only [ledger, Function.update_of_ne (Ne.symm hdc)]
    rfl

theorem simulated_recvCompleteCallback (hconn : s.connection d = some conn) (hloop : AtLoop s)
    {stream : Stream} {retRecvStat : StreamStat} {vecBytes : List UInt8}
    (hstat : retRecvStat = .recverr ∨ retRecvStat = .recved) :
    Simulated files s
      (recvCompleteCallback s d { conn with stream := stream } retRecvStat vecBytes) c := by
  have hidle : s.service.poster ≠ some c := by simp [hloop.1, ServicePc.poster]
  have hold : d = c → connectionOf s c = conn := by
    rintro rfl
    simp [connectionOf, hconn]
  by_cases hbody : retRecvStat = .recved ∧ conn.stat = .recvBody
  · rw [recvCompleteCallback, if_pos hbody]
    apply simulated_request hidle
    intro hdc
    rw [hold hdc]
    exact ⟨rfl, rfl⟩
  · apply Simulated.stutters
    rw [recvCompleteCallback, if_neg hbody]
    apply ledger_setConnection
    intro hdc
    rw [hold hdc]
    exact @MapReduceConnection.recvCompleteCallback_counters { conn with stream := stream }
      retRecvStat vecBytes hbody hstat

theorem simulated_post {path : List UInt8} {rest : List (List UInt8)} (hs : s.taskQueue.Valid)
    (hservice : s.service = .atPost d path rest)
    (hroom : s.taskQueue.next s.taskQueue.head ≠ s.taskQueue.tail) :
    Simulated files s
      { s with taskQueue := s.taskQueue.push ⟨d, path⟩, service := .atCount d rest } c := by
  have htasks := @tasksOf_push κ τ _ _ s c hs ⟨d, path⟩ hroom
  have hledger : ledger
      { s with taskQueue := s.taskQueue.push ⟨d, path⟩, service := .atCount d rest } c =
      { ledger s c with
        unposted := ServicePc.unposted c (.atCount d rest)
        uncounted := ServicePc.uncounted c (.atCount d rest)
        tasks := taskOf c ⟨d, path⟩ + tasksOf s c } := by
    rw [← htasks]
    rfl
  by_cases hdc : d = c
  · subst d
    apply Simulated.steps
    rw [hledger]
    simp only [ServicePc.unposted, ServicePc.uncounted, taskOf, if_true, Multiset.singleton_add]
    apply ScatterGather.Step.post
    · simp [ledger, hservice, ServicePc.unposted]
    · simp [ledger, hservice, ServicePc.uncounted]
  · apply Simulated.stutters
    rw [hledger]
    simp only [ServicePc.unposted, ServicePc.uncounted, taskOf, hdc, if_false, zero_add]
    apply ScatterGather.State.ext <;> try rfl
    · simp [ledger, hservice, ServicePc.unposted, hdc]
    · simp [ledger, hservice, ServicePc.uncounted]

theorem simulated_count {rest : List (List UInt8)} (hservice : s.service = .atCount d rest)
    (hconn : s.connection d = some conn) :
    Simulated files s (loopHead s d conn.countTask rest) c := by
  by_cases hdc : d = c
  · subst d
    have hold : connectionOf s c = conn := by simp [connectionOf, hconn]
    have hledger : ledger (loopHead s c conn.countTask rest) c =
        { ledger s c with uncounted := 0, taskCount := (ledger s c).taskCount + 1 } := by
      rw [ledger_loopHead_self]
      apply ScatterGather.State.ext <;> try rfl
      · simp [ledger, hservice, ServicePc.unposted]
      · simp [ledger, hold, MapReduceConnection.countTask]
      · change conn.best = (connectionOf s c).best
        rw [hold]
    apply Simulated.steps
    rw [hledger]
    apply ScatterGather.Step.count
    simp [ledger, hservice, ServicePc.uncounted]
  · apply Simulated.stutters
    apply ledger_loopHead_of_ne _ _ hdc
    simpa [hservice, ServicePc.poster] using hdc

variable [DecidableEq τ]

theorem tasksOf_free {t : τ} {task : MapTask κ} (hrunning : s.running t = some task) :
    taskOf c task + tasksOf { s with running := Function.update s.running t none } c =
      tasksOf s c := by
  have hsum := total_update (fun o => o.elim 0 (taskOf c)) s.running t none
  simp only [hrunning, Option.elim_some, Option.elim_none, add_zero] at hsum
  simp only [tasksOf, ← hsum]
  rw [add_left_comm, add_comm (total _ _)]

theorem tasksOf_take (hs : s.taskQueue.Valid) {t : τ} (hfree : s.running t = none)
    (hsome : s.taskQueue.tail ≠ s.taskQueue.head) :
    tasksOf { s with
      taskQueue := s.taskQueue.pop
      running := Function.update s.running t (some (s.taskQueue.buff s.taskQueue.tail)) } c =
      tasksOf s c := by
  have hsum := total_update (fun o => o.elim 0 (taskOf c)) s.running t
    (some (s.taskQueue.buff s.taskQueue.tail))
  simp only [hfree, Option.elim_some, Option.elim_none, add_zero] at hsum
  simp only [tasksOf, hsum, hs.elements_pop hsome, List.map_cons, List.sum_cons]
  rw [add_comm (total _ _), ← add_assoc, add_comm (List.sum _)]

theorem simulated_lockFails {t : τ} {task : MapTask κ} (hrunning : s.running t = some task)
    (hconn : s.connection task.connection = some conn) (hgone : conn.inMap = false) :
    Simulated files s { s with running := Function.update s.running t none } c := by
  have htasks := tasksOf_free (c := c) hrunning
  by_cases htask : task.connection = c
  · apply Simulated.steps
    simp only [taskOf, htask, if_true, Multiset.singleton_add] at htasks
    refine .lose _ _ _ htasks.symm fun hopen => ?_
    rw [htask] at hconn
    simp [hopen conn hconn] at hgone
  · apply Simulated.stutters
    simp only [taskOf, htask, if_false, zero_add] at htasks
    simp only [ledger, htasks]
    rfl

theorem simulated_compute {t : τ} {junk : NativeInt} {task : MapTask κ} {file : InputFile}
    {mailbox : InteractiveTask.Mailbox (Message κ) (Option τ)} (hs : InteractiveTask.Inv s.mailbox)
    (hrunning : s.running t = some task) (hfile : files.content task.filePath = some file)
    (hmail : InteractiveTask.step s.mailbox (.notifyMsg (some (some t))
      (.mapDone task.connection (MapReduceConnection.mapFunction file junk))) = some mailbox) :
    Simulated files s
      { s with running := Function.update s.running t none, mailbox := mailbox } c := by
  have htasks := tasksOf_free (c := c) hrunning
  have hresults := hs.inTransit_step (resultOf c) hmail
  simp only [InteractiveTask.handles, InteractiveTask.sends, add_zero] at hresults
  have hledger : ledger
        { s with running := Function.update s.running t none, mailbox := mailbox } c =
      { ledger s c with
        tasks := tasksOf { s with running := Function.update s.running t none } c
        results := InteractiveTask.inTransit (resultOf c) mailbox } := rfl
  by_cases htask : task.connection = c
  · apply Simulated.steps
    simp only [taskOf, htask, if_true, Multiset.singleton_add] at htasks
    simp only [resultOf, htask, if_true] at hresults
    rw [add_comm, Multiset.singleton_add] at hresults
    rw [hledger, hresults]
    exact .compute (ledger s c) _ _ _ htasks.symm ⟨file, junk, hfile, rfl⟩
  · apply Simulated.stutters
    simp only [taskOf, htask, if_false, zero_add] at htasks
    simp only [resultOf, htask, if_false, add_zero] at hresults
    rw [hledger, htasks, hresults]
    rfl

theorem simulated_get {mailbox : InteractiveTask.Mailbox (Message κ) (Option τ)} {msg : Message κ}
    (hs : InteractiveTask.Inv s.mailbox) (hunknown : s.connection c = none → s.requests c = [])
    (hbounded : ScatterGather.Bounded (ledger s c)) (hidle : s.service.poster ≠ some c)
    (hmail : InteractiveTask.step s.mailbox .syncGet = some mailbox)
    (hmsg : mailbox.receiver = .inOnMessage msg) :
    Simulated files s (onMessage { s with mailbox := mailbox } msg) c := by
  have hresults := hs.inTransit_step (resultOf c) hmail
  simp only [InteractiveTask.handles, InteractiveTask.sends, add_zero, hmsg] at hresults
  have hhandles := handles_onMessage { s with mailbox := mailbox } msg
  generalize onMessage { s with mailbox := mailbox } msg = u at hhandles ⊢
  cases hhandles with
  | starts d hconn =>
      simp only [resultOf, add_zero] at hresults
      apply Simulated.stutters
      rw [← ledger_mailbox_of_eq hresults]
      apply ledger_setConnection
      rintro rfl
      change s.connection d = none at hconn
      simp [connectionOf, hconn, SameCounters]
  | ignores d hconn =>
      simp only [resultOf, add_zero] at hresults
      exact .stutters (ledger_mailbox_of_eq hresults)
  | delivers d conn maxNum hconn hopen =>
      by_cases hdc : d = c
      · subst d
        simp only [resultOf, if_true] at hresults
        rw [add_comm, Multiset.singleton_add] at hresults
        obtain ⟨hunposted, huncounted⟩ := ledger_idle hidle
        have hledger := ledger_deliver_self hconn maxNum _ rfl
        apply Simulated.steps
        rw [hledger]
        exact .reduce (ledger s c) maxNum _ hresults.symm hunposted huncounted
      · simp only [resultOf, hdc, if_false, add_zero] at hresults
        apply Simulated.stutters
        rw [← ledger_mailbox_of_eq hresults]
        exact ledger_deliver_of_ne conn maxNum hdc
  | drops d maxNum hgone =>
      by_cases hdc : d = c
      · subst d
        simp only [resultOf, if_true] at hresults
        rw [add_comm, Multiset.singleton_add] at hresults
        cases hconn : s.connection c with
        | none =>
            -- a connection that is not there has sent no request
            have hnone := hbounded.outstanding_eq_zero (by simp [ledger, hunknown hconn])
            have hsome : (ledger s c).results.card ≠ 0 := by
              change (InteractiveTask.inTransit (resultOf c) s.mailbox).card ≠ 0
              rw [← hresults, Multiset.card_cons]
              exact Nat.succ_ne_zero _
            unfold ScatterGather.State.outstanding at hnone
            omega
        | some conn =>
            apply Simulated.steps
            refine .drop (ledger s c) _ _ hresults.symm fun hopen => ?_
            have hmap := hgone conn hconn
            rw [hopen conn hconn] at hmap
            exact Bool.noConfusion hmap
      · simp only [resultOf, hdc, if_false, add_zero] at hresults
        exact .stutters (ledger_mailbox_of_eq hresults)

/-- Each step of the server is simulated for each connection. -/
theorem simulated {t : State κ τ} {a : Action κ τ} (hs : Inv mailboxSize taskQueueSize s)
    (hserved : Served s) (hbounded : ScatterGather.Bounded (ledger s c))
    (h : step files s a = some t) : Simulated files s t c := by
  cases moves_of_step h with
  | accept d mailbox hnew hmail =>
      apply Simulated.stutters
      have hresults := hs.mailbox.inTransit_step (resultOf c) hmail
      simp only [InteractiveTask.handles, InteractiveTask.sends, resultOf, add_zero] at hresults
      exact ledger_mailbox_of_eq hresults
  | receives d r conn stream hconn hloop hpending hmay hout =>
      apply Simulated.stutters
      apply ledger_setConnection
      rintro rfl
      simp [connectionOf, hconn, SameCounters, MapReduceConnection.best]
  | received d r conn stream retRecvStat vecBytes hconn hloop hpending hmay hout =>
      apply simulated_recvCompleteCallback hconn hloop
      obtain ⟨-, hstat⟩ := (hserved.phase d conn hconn).recvOnePack_some hpending hmay hout
      exact hstat.imp And.left And.left
  | sends d r conn stream hconn hloop hpending hmay hout =>
      apply Simulated.stutters
      suffices hcall : ledger (setConnection s d { conn with stream := stream }) c = ledger s c from
        hcall
      apply ledger_setConnection
      rintro rfl
      simp [connectionOf, hconn, SameCounters, MapReduceConnection.best]
  | sent d r conn stream retSendStat hconn hloop hpending hmay hout =>
      apply Simulated.stutters
      suffices hcall : ledger (setConnection s d
          (MapReduceConnection.sendCompleteCallback { conn with stream := stream } retSendStat)) c =
          ledger s c from hcall
      apply ledger_setConnection
      rintro rfl
      have hold : connectionOf s d = conn := by simp [connectionOf, hconn]
      rw [hold]
      exact MapReduceConnection.sendCompleteCallback_counters { conn with stream := stream }
        retSendStat
  | post d path rest hservice hroom => exact simulated_post hs.taskQueue hservice hroom
  | count d rest conn hservice hconn => exact simulated_count hservice hconn
  | take t hfree hidle hsome =>
      apply Simulated.stutters
      have htasks := tasksOf_take (c := c) hs.taskQueue hfree hsome
      simp only [ledger, htasks]
      rfl
  | lockFails t task conn hrunning hconn hgone => exact simulated_lockFails hrunning hconn hgone
  | compute t junk task file mailbox hrunning hfile hmail =>
      exact simulated_compute hs.mailbox hrunning hfile hmail
  | mails a b mailbox hb hloop hmail =>
      apply Simulated.stutters
      apply ledger_mailbox_of_eq
      have hresults := hs.mailbox.inTransit_step (resultOf c) hmail
      cases a <;> simp only [mailboxAction, Option.some.injEq, reduceCtorEq] at hb <;> subst b <;>
        simpa only [InteractiveTask.handles, InteractiveTask.sends, add_zero] using hresults
  | get mailbox msg hmail hmsg =>
      have hidle : s.service.poster ≠ some c := by
        have hloop : s.service = .atLoop := by
          by_contra hcallback
          have hin := hs.inCallback hcallback
          cases InteractiveTask.moves_of_step hmail with
          | syncGet hat hsome => simp [hin] at hat
        simp [hloop, ServicePc.poster]
      exact simulated_get hs.mailbox (hserved.unknown c) hbounded hidle hmail hmsg

theorem Reached.step {t : State κ τ} {a : Action κ τ}
    (hs : Reached files mailboxSize taskQueueSize s) (h : MapReduceServer.step files s a = some t) :
    Reached files mailboxSize taskQueueSize t where
  inv := hs.inv.step h
  served := hs.served.step h
  bounded c := by
    cases simulated hs.inv hs.served (hs.bounded c) h with
    | stutters hsame =>
        rw [hsame]
        exact hs.bounded c
    | steps hstep => exact (hs.bounded c).step hstep
  lossless c hopen := by
    have hold := hs.lossless c (hopen.of_step h)
    exact (simulated hs.inv hs.served (hs.bounded c) h).keeps hopen hold hold.step

end Ledger

end MapReduceServer

end Banana
