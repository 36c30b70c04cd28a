import Banana.Examples.MapReduceConnection
import Banana.MultiThreading.InteractiveTask

/-!
# MapReduceServer

The server of `examples/MapReduceServer` with one network service: the accept
service and the workers of the pool put messages into the mailbox of the
service, the service posts map tasks into the queue of the pool.  Both queues
are bounded and block.  The service's thread runs one callback at a time: a
read or write event of a connection, or the handler of its mailbox.

A message of a map task finds the connection that posted it, or none; that is
the theorem about `NetWorkService`.  So messages carry the connection here.
-/

namespace Banana

structure MapTask (κ : Type*) where
  connection : κ
  filePath : List UInt8

namespace MapReduceServer

variable {κ τ : Type*}

inductive Message (κ : Type*)
  | newConnect (c : κ)
  | mapDone (c : κ) (maxNum : NativeInt)

/-- Where the service's thread is in the body branch of a receive callback:
before `syncPostTask`, or before `taskCount_++`, with the names that follow. -/
inductive ServicePc (κ : Type*)
  | atLoop
  | atPost (c : κ) (path : List UInt8) (rest : List (List UInt8))
  | atCount (c : κ) (rest : List (List UInt8))

/-- The threads `τ` are the workers of the pool; in the mailbox the sender
`some none` is the accept service, `some (some t)` is worker `t`.  The last
four fields record, for each connection, the bodies received, the answers
reduced, the buffers given to `asyncSendBytes` and the bytes that `send` took. -/
structure State (κ τ : Type*) where
  mailbox : InteractiveTask.Mailbox (Message κ) (Option τ)
  taskQueue : ConcurrentRingBuffer (MapTask κ)
  running : τ → Option (MapTask κ)
  service : ServicePc κ
  accepted : κ → Bool
  connection : κ → Option MapReduceConnection
  requests : κ → List (List UInt8)
  reduced : κ → List NativeInt
  replies : κ → List (List UInt8)
  wire : κ → List UInt8

inductive Action (κ τ : Type*)
  | accept (c : κ)
  | readable (c : κ) (r : RecvResult)
  | writable (c : κ) (r : SendResult)
  | post
  | count
  | take (t : τ)
  | lockFails (t : τ)
  | compute (t : τ) (junk : NativeInt)
  | put (sender : Option τ)
  | write (sender : Option τ)
  | fire
  | read
  | get
  | finish

def start (mailboxSize taskQueueSize : ℕ) (messages : ℕ → Message κ) (tasks : ℕ → MapTask κ) :
    State κ τ where
  mailbox := InteractiveTask.start true mailboxSize messages
  taskQueue := .new taskQueueSize tasks
  running := fun _ => none
  service := .atLoop
  accepted := fun _ => false
  connection := fun _ => none
  requests := fun _ => []
  reduced := fun _ => []
  replies := fun _ => []
  wire := fun _ => []

/-- The body that a read completes when `recv` returns `r`. -/
def completedBody (s : State κ τ) (c : κ) (r : RecvResult) : Option (List UInt8) :=
  match s.connection c with
  | none => none
  | some conn => if conn.stat = .recvBody then conn.stream.received r else none

theorem completedBody_eq_some {s : State κ τ} {c : κ} {r : RecvResult} {vecBytes : List UInt8} :
    completedBody s c r = some vecBytes ↔ ∃ conn, s.connection c = some conn ∧
      conn.stat = .recvBody ∧ conn.stream.received r = some vecBytes := by
  unfold completedBody
  cases hconn : s.connection c with
  | none => simp
  | some conn => simp [Option.ite_none_right_eq_some]

section Steps

variable [DecidableEq κ]

def setConnection (s : State κ τ) (c : κ) (conn : MapReduceConnection) : State κ τ :=
  { s with connection := Function.update s.connection c (some conn) }

/-- The head of the loop over the file names: post the next one, or leave the
body branch. -/
def loopHead (s : State κ τ) (c : κ) (conn : MapReduceConnection) :
    List (List UInt8) → State κ τ
  | [] => { setConnection s c conn.recvBodyDone with service := .atLoop }
  | path :: rest => { setConnection s c conn with service := .atPost c path rest }

/-- The receive callback; in the body branch up to the loop. -/
def recvCompleteCallback (s : State κ τ) (c : κ) (conn : MapReduceConnection)
    (retRecvStat : StreamStat) (vecBytes : List UInt8) : State κ τ :=
  if retRecvStat = .recved ∧ conn.stat = .recvBody then
    loopHead { s with requests := Function.update s.requests c (s.requests c ++ [vecBytes]) } c
      conn (MapReduceConnection.filePaths vecBytes)
  else setConnection s c (conn.recvCompleteCallback retRecvStat vecBytes).1

def deliver (s : State κ τ) (c : κ) (conn : MapReduceConnection) (maxNum : NativeInt) :
    State κ τ :=
  { setConnection s c (conn.onMessage maxNum).1 with
    reduced := Function.update s.reduced c (s.reduced c ++ [maxNum])
    replies := Function.update s.replies c (s.replies c ++ (conn.onMessage maxNum).2.toList) }

/-- `NetWorkService::onMessage` -/
def onMessage (s : State κ τ) : Message κ → State κ τ
  | .newConnect c =>
      match s.connection c with
      | none => setConnection s c .start
      | some _ => s
  | .mapDone c maxNum =>
      match s.connection c with
      | none => s
      | some conn => if conn.inMap then deliver s c conn maxNum else s

theorem loopHead_threads (s : State κ τ) (c : κ) (conn : MapReduceConnection)
    (paths : List (List UInt8)) :
    (loopHead s c conn paths).mailbox = s.mailbox ∧
      (loopHead s c conn paths).taskQueue = s.taskQueue ∧
      (loopHead s c conn paths).running = s.running := by
  cases paths <;> exact ⟨rfl, rfl, rfl⟩

theorem recvCompleteCallback_threads (s : State κ τ) (c : κ) (conn : MapReduceConnection)
    (retRecvStat : StreamStat) (vecBytes : List UInt8) :
    (recvCompleteCallback s c conn retRecvStat vecBytes).mailbox = s.mailbox ∧
      (recvCompleteCallback s c conn retRecvStat vecBytes).taskQueue = s.taskQueue ∧
      (recvCompleteCallback s c conn retRecvStat vecBytes).running = s.running := by
  unfold recvCompleteCallback
  split_ifs
  · exact loopHead_threads _ _ _ _
  · exact ⟨rfl, rfl, rfl⟩

theorem loopHead_requests (s : State κ τ) (c : κ) (conn : MapReduceConnection)
    (paths : List (List UInt8)) : (loopHead s c conn paths).requests = s.requests := by
  cases paths <;> rfl

inductive Handles (s : State κ τ) : Message κ → State κ τ → Prop
  | starts (c : κ) (hconn : s.connection c = none) :
      Handles s (.newConnect c) (setConnection s c .start)
  | ignores (c : κ) (hconn : s.connection c ≠ none) : Handles s (.newConnect c) s
  | delivers (c : κ) (conn : MapReduceConnection) (maxNum : NativeInt)
      (hconn : s.connection c = some conn) (hopen : conn.inMap = true) :
      Handles s (.mapDone c maxNum) (deliver s c conn maxNum)
  | drops (c : κ) (maxNum : NativeInt)
      (hgone : ∀ conn, s.connection c = some conn → conn.inMap = false) :
      Handles s (.mapDone c maxNum) s

theorem handles_onMessage (s : State κ τ) (msg : Message κ) : Handles s msg (onMessage s msg) := by
  cases msg with
  | newConnect c =>
      cases hconn : s.connection c with
      | none =>
          simp only [onMessage, hconn]
          exact .starts c hconn
      | some conn =>
          simp only [onMessage, hconn]
          exact .ignores c (by simp [hconn])
  | mapDone c maxNum =>
      cases hconn : s.connection c with
      | none =>
          simp only [onMessage, hconn]
          exact .drops c maxNum (by simp [hconn])
      | some conn =>
          simp only [onMessage, hconn]
          split_ifs with hopen
          · exact .delivers c conn maxNum hconn hopen
          · exact .drops c maxNum (by simpa [hconn] using hopen)

theorem onMessage_threads (s : State κ τ) (msg : Message κ) :
    (onMessage s msg).mailbox = s.mailbox ∧ (onMessage s msg).taskQueue = s.taskQueue ∧
      (onMessage s msg).running = s.running ∧ (onMessage s msg).service = s.service ∧
      (onMessage s msg).requests = s.requests := by
  have hmsg := handles_onMessage s msg
  generalize onMessage s msg = u at hmsg ⊢
  cases hmsg <;> exact ⟨rfl, rfl, rfl, rfl, rfl⟩

def AtLoop (s : State κ τ) : Prop := s.service = .atLoop ∧ s.mailbox.receiver = .inLoop

instance (s : State κ τ) : Decidable (AtLoop s) :=
  match hs : s.service, hr : s.mailbox.receiver with
  | .atLoop, .inLoop => .isTrue ⟨hs, hr⟩
  | .atPost _ _ _, _ => .isFalse fun h => by simp [h.1] at hs
  | .atCount _ _, _ => .isFalse fun h => by simp [h.1] at hs
  | _, .atRead => .isFalse fun h => by simp [h.2] at hr
  | _, .atSyncGet _ => .isFalse fun h => by simp [h.2] at hr
  | _, .inOnMessage _ => .isFalse fun h => by simp [h.2] at hr

variable [DecidableEq τ] (files : FileSystem)

def mailboxStep (s : State κ τ)
    (a : InteractiveTask.Action (Message κ) (Option τ)) : Option (State κ τ) :=
  (InteractiveTask.step s.mailbox a).map fun mailbox => { s with mailbox := mailbox }

/-- Opening a file that is not there fails an assertion.  A connection can have been
destructed only if it is not in the map. -/
def step (s : State κ τ) : Action κ τ → Option (State κ τ)
  | .accept c =>
      if s.accepted c = false then
        mailboxStep { s with accepted := Function.update s.accepted c true }
          (.notifyMsg (some none) (.newConnect c))
      else none
  | .readable c r =>
      match s.connection c with
      | none => none
      | some conn =>
          if AtLoop s ∧ conn.stream.readPending = true ∧ conn.stream.mayRecv r = true then
            match conn.stream.recvOnePack r with
            | (stream, none) => some (setConnection s c { conn with stream := stream })
            | (stream, some (retRecvStat, vecBytes)) =>
                some (recvCompleteCallback s c { conn with stream := stream } retRecvStat vecBytes)
          else none
  | .writable c r =>
      match s.connection c with
      | none => none
      | some conn =>
          if AtLoop s ∧ conn.stream.writePending = true ∧ conn.stream.maySend r = true then
            match conn.stream.sendOnePack r with
            | (stream, none) =>
                some { setConnection s c { conn with stream := stream } with
                  wire := Function.update s.wire c (s.wire c ++ conn.stream.taken r) }
            | (stream, some retSendStat) =>
                some { setConnection s c
                    ({ conn with stream := stream }.sendCompleteCallback retSendStat) with
                  wire := Function.update s.wire c (s.wire c ++ conn.stream.taken r) }
          else none
  | .post =>
      match s.service with
      | .atPost c path rest =>
          match ConcurrentRingBuffer.syncPut ⟨c, path⟩ s.taskQueue with
          | .finish taskQueue _ _ =>
              some { s with taskQueue := taskQueue, service := .atCount c rest }
          | .wait _ => none
      | _ => none
  | .count =>
      match s.service with
      | .atCount c rest => (s.connection c).map fun conn => loopHead s c conn.countTask rest
      | _ => none
  | .take t =>
      match s.running t, s.mailbox.sender (some (some t)),
          ConcurrentRingBuffer.syncGet s.taskQueue with
      | none, .idle, .finish taskQueue (.returnTrue task) _ =>
          some { s with taskQueue := taskQueue, running := Function.update s.running t (some task) }
      | _, _, _ => none
  | .lockFails t =>
      match s.running t with
      | none => none
      | some task =>
          match s.connection task.connection with
          | none => none
          | some conn =>
              if conn.inMap then none
              else some { s with running := Function.update s.running t none }
  | .compute t junk =>
      match s.running t with
      | none => none
      | some task =>
          match files.content task.filePath with
          | none => none
          | some file =>
              mailboxStep { s with running := Function.update s.running t none }
                (.notifyMsg (some (some t))
                  (.mapDone task.connection (MapReduceConnection.mapFunction file junk)))
  | .put sender => mailboxStep s (.syncPut (some sender))
  | .write sender => mailboxStep s (.write (some sender))
  | .fire => if AtLoop s then mailboxStep s .fire else none
  | .read => mailboxStep s .read
  | .get =>
      (InteractiveTask.step s.mailbox .syncGet).map fun mailbox =>
        match mailbox.receiver with
        | .inOnMessage msg => onMessage { s with mailbox := mailbox } msg
        | _ => { s with mailbox := mailbox }
  | .finish => mailboxStep s .finish

def mailboxAction : Action κ τ → Option (InteractiveTask.Action (Message κ) (Option τ))
  | .put sender => some (.syncPut (some sender))
  | .write sender => some (.write (some sender))
  | .fire => some .fire
  | .read => some .read
  | .finish => some .finish
  | _ => none

inductive Moves (s : State κ τ) : Action κ τ → State κ τ → Prop
  | accept (c : κ) (mailbox : InteractiveTask.Mailbox (Message κ) (Option τ))
      (hnew : s.accepted c = false)
      (hmail : InteractiveTask.step s.mailbox (.notifyMsg (some none) (.newConnect c)) =
        some mailbox) :
      Moves s (.accept c)
        { s with accepted := Function.update s.accepted c true, mailbox := mailbox }
  | receives (c : κ) (r : RecvResult) (conn : MapReduceConnection) (stream : Stream)
      (hconn : s.connection c = some conn) (hloop : AtLoop s)
      (hpending : conn.stream.readPending = true) (hmay : conn.stream.mayRecv r = true)
      (hout : conn.stream.recvOnePack r = (stream, none)) :
      Moves s (.readable c r) (setConnection s c { conn with stream := stream })
  | received (c : κ) (r : RecvResult) (conn : MapReduceConnection) (stream : Stream)
      (retRecvStat : StreamStat) (vecBytes : List UInt8) (hconn : s.connection c = some conn)
      (hloop : AtLoop s) (hpending : conn.stream.readPending = true)
      (hmay : conn.stream.mayRecv r = true)
      (hout : conn.stream.recvOnePack r = (stream, some (retRecvStat, vecBytes))) :
      Moves s (.readable c r)
        (recvCompleteCallback s c { conn with stream := stream } retRecvStat vecBytes)
  | sends (c : κ) (r : SendResult) (conn : MapReduceConnection) (stream : Stream)
      (hconn : s.connection c = some conn) (hloop : AtLoop s)
      (hpending : conn.stream.writePending = true) (hmay : conn.stream.maySend r = true)
      (hout : conn.stream.sendOnePack r = (stream, none)) :
      Moves s (.writable c r)
        { setConnection s c { conn with stream := stream } with
          wire := Function.update s.wire c (s.wire c ++ conn.stream.taken r) }
  | sent (c : κ) (r : SendResult) (conn : MapReduceConnection) (stream : Stream)
      (retSendStat : StreamStat) (hconn : s.connection c = some conn) (hloop : AtLoop s)
      (hpending : conn.stream.writePending = true) (hmay : conn.stream.maySend r = true)
      (hout : conn.stream.sendOnePack r = (stream, some retSendStat)) :
      Moves s (.writable c r)
        { setConnection s c ({ conn with stream := stream }.sendCompleteCallback retSendStat) with
          wire := Function.update s.wire c (s.wire c ++ conn.stream.taken r) }
  | post (c : κ) (path : List UInt8) (rest : List (List UInt8))
      (hservice : s.service = .atPost c path rest)
      (hroom : s.taskQueue.next s.taskQueue.head ≠ s.taskQueue.tail) :
      Moves s .post { s with taskQueue := s.taskQueue.push ⟨c, path⟩, service := .atCount c rest }
  | count (c : κ) (rest : List (List UInt8)) (conn : MapReduceConnection)
      (hservice : s.service = .atCount c rest) (hconn : s.connection c = some conn) :
      Moves s .count (loopHead s c conn.countTask rest)
  | take (t : τ) (hfree : s.running t = none) (hidle : s.mailbox.sender (some (some t)) = .idle)
      (hsome : s.taskQueue.tail ≠ s.taskQueue.head) :
      Moves s (.take t)
        { s with
          taskQueue := s.taskQueue.pop
          running := Function.update s.running t (some (s.taskQueue.buff s.taskQueue.tail)) }
  | lockFails (t : τ) (task : MapTask κ) (conn : MapReduceConnection)
      (hrunning : s.running t = some task) (hconn : s.connection task.connection = some conn)
      (hgone : conn.inMap = false) :
      Moves s (.lockFails t) { s with running := Function.update s.running t none }
  | compute (t : τ) (junk : NativeInt) (task : MapTask κ) (file : InputFile)
      (mailbox : InteractiveTask.Mailbox (Message κ) (Option τ))
      (hrunning : s.running t = some task) (hfile : files.content task.filePath = some file)
      (hmail : InteractiveTask.step s.mailbox (.notifyMsg (some (some t))
        (.mapDone task.connection (MapReduceConnection.mapFunction file junk))) = some mailbox) :
      Moves s (.compute t junk)
        { s with running := Function.update s.running t none, mailbox := mailbox }
  | mails (a : Action κ τ) (b : InteractiveTask.Action (Message κ) (Option τ))
      (mailbox : InteractiveTask.Mailbox (Message κ) (Option τ)) (hb : mailboxAction a = some b)
      (hloop : a = .fire → AtLoop s) (hmail : InteractiveTask.step s.mailbox b = some mailbox) :
      Moves s a { s with mailbox := mailbox }
  | get (mailbox : InteractiveTask.Mailbox (Message κ) (Option τ)) (msg : Message κ)
      (hmail : InteractiveTask.step s.mailbox .syncGet = some mailbox)
      (hmsg : mailbox.receiver = .inOnMessage msg) :
      Moves s .get (onMessage { s with mailbox := mailbox } msg)

variable {files}

theorem moves_of_step {s u : State κ τ} {a : Action κ τ} (h : step files s a = some u) :
    Moves files s a u := by
  cases a with
  | accept c =>
      simp only [step, Option.ite_none_right_eq_some] at h
      obtain ⟨hnew, h⟩ := h
      obtain ⟨mailbox, hmail, rfl⟩ := Option.map_eq_some_iff.mp h
      exact .accept c mailbox hnew hmail
  | readable c r =>
      cases hconn : s.connection c with
      | none => simp [step, hconn] at h
      | some conn =>
          simp only [step, hconn, Option.ite_none_right_eq_some] at h
          obtain ⟨⟨hloop, hpending, hmay⟩, h⟩ := h
          rcases hout : conn.stream.recvOnePack r with ⟨stream, _ | ⟨retRecvStat, vecBytes⟩⟩
          · simp only [hout, Option.some.injEq] at h
            exact h ▸ .receives c r conn stream hconn hloop hpending hmay hout
          · simp only [hout, Option.some.injEq] at h
            exact h ▸ .received c r conn stream retRecvStat vecBytes hconn hloop hpending hmay hout
  | writable c r =>
      cases hconn : s.connection c with
      | none => simp [step, hconn] at h
      | some conn =>
          simp only [step, hconn, Option.ite_none_right_eq_some] at h
          obtain ⟨⟨hloop, hpending, hmay⟩, h⟩ := h
          rcases hout : conn.stream.sendOnePack r with ⟨stream, _ | retSendStat⟩
          · simp only [hout, Option.some.injEq] at h
            exact h ▸ .sends c r conn stream hconn hloop hpending hmay hout
          · simp only [hout, Option.some.injEq] at h
            exact h ▸ .sent c r conn stream retSendStat hconn hloop hpending hmay hout
  | post =>
      cases hservice : s.service with
      | atLoop => simp [step, hservice] at h
      | atCount c rest => simp [step, hservice] at h
      | atPost c path rest =>
          by_cases hfull : s.taskQueue.next s.taskQueue.head = s.taskQueue.tail
          · simp [step, hservice, ConcurrentRingBuffer.syncPut, hfull] at h
          · simp only [step, hservice, ConcurrentRingBuffer.syncPut, hfull, if_false,
              Option.some.injEq] at h
            exact h ▸ .post c path rest hservice hfull
  | count =>
      cases hservice : s.service with
      | atLoop => simp [step, hservice] at h
      | atPost c path rest => simp [step, hservice] at h
      | atCount c rest =>
          simp only [step, hservice] at h
          obtain ⟨conn, hconn, rfl⟩ := Option.map_eq_some_iff.mp h
          exact .count c rest conn hservice hconn
  | take t =>
      cases hfree : s.running t <;> cases hidle : s.mailbox.sender (some (some t)) <;>
        simp only [step, hfree, hidle] at h
      case none.idle =>
        by_cases hempty : s.taskQueue.tail = s.taskQueue.head
        · simp [ConcurrentRingBuffer.syncGet, hempty] at h
        · simp only [ConcurrentRingBuffer.syncGet, hempty, if_false, Option.some.injEq] at h
          exact h ▸ .take t hfree hidle hempty
      all_goals exact absurd h (by simp)
  | lockFails t =>
      cases hrunning : s.running t with
      | none => simp [step, hrunning] at h
      | some task =>
          cases hconn : s.connection task.connection with
          | none => simp [step, hrunning, hconn] at h
          | some conn =>
              obtain ⟨hgone, rfl⟩ : conn.inMap = false ∧
                  { s with running := Function.update s.running t none } = u := by
                simpa [step, hrunning, hconn] using h
              exact .lockFails t task conn hrunning hconn hgone
  | compute t junk =>
      cases hrunning : s.running t with
      | none => simp [step, hrunning] at h
      | some task =>
          cases hfile : files.content task.filePath with
          | none => simp [step, hrunning, hfile] at h
          | some file =>
              simp only [step, hrunning, hfile] at h
              obtain ⟨mailbox, hmail, rfl⟩ := Option.map_eq_some_iff.mp h
              exact .compute t junk task file mailbox hrunning hfile hmail
  | put sender =>
      obtain ⟨mailbox, hmail, rfl⟩ := Option.map_eq_some_iff.mp h
      exact .mails _ _ mailbox rfl (by simp) hmail
  | write sender =>
      obtain ⟨mailbox, hmail, rfl⟩ := Option.map_eq_some_iff.mp h
      exact .mails _ _ mailbox rfl (by simp) hmail
  | fire =>
      simp only [step, Option.ite_none_right_eq_some] at h
      obtain ⟨hloop, h⟩ := h
      obtain ⟨mailbox, hmail, rfl⟩ := Option.map_eq_some_iff.mp h
      exact .mails _ _ mailbox rfl (fun _ => hloop) hmail
  | read =>
      obtain ⟨mailbox, hmail, rfl⟩ := Option.map_eq_some_iff.mp h
      exact .mails _ _ mailbox rfl (by simp) hmail
  | get =>
      obtain ⟨mailbox, hmail, rfl⟩ := Option.map_eq_some_iff.mp h
      obtain ⟨msg, hmsg⟩ : ∃ msg, mailbox.receiver = .inOnMessage msg := by
        cases InteractiveTask.moves_of_step hmail
        exact ⟨_, rfl⟩
      simp only [hmsg]
      exact .get mailbox msg hmail hmsg
  | finish =>
      obtain ⟨mailbox, hmail, rfl⟩ := Option.map_eq_some_iff.mp h
      exact .mails _ _ mailbox rfl (by simp) hmail

end Steps

end MapReduceServer

end Banana
