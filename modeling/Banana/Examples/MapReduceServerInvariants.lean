import Banana.Examples.MapReduceServer

/-!
# What holds between any two steps of the server

`Inv` is about the threads and the two queues, `Served` about the connections
of the service.
-/

namespace Banana.MapReduceServer

open Transition

variable {κ τ : Type*}

/-- The connection whose callback posts tasks. -/
def ServicePc.poster : ServicePc κ → Option κ
  | .atLoop => none
  | .atPost c _ _ => some c
  | .atCount c _ => some c

/-- The connections of the service: the one whose callback posts exists, one that does
not exist has sent nothing, each waits for what its `stat_` says, and a body fits the
receive buffer. -/
structure Served (s : State κ τ) : Prop where
  serving : ∀ c, s.service.poster = some c → s.connection c ≠ none
  unknown : ∀ c, s.connection c = none → s.requests c = []
  phase : ∀ c conn, s.connection c = some conn → conn.Phase
  body : ∀ c, ∀ vecBytes ∈ s.requests c, vecBytes.length ≤ 1024

/-- The threads: the mailbox and the task queue are in order and of their sizes, the
service puts no message itself, a worker with a task is not in the middle of putting an
answer, and a receive callback runs inside the loop. -/
structure Inv [Fintype τ] (mailboxSize taskQueueSize : ℕ) (s : State κ τ) : Prop where
  mailbox : InteractiveTask.Inv s.mailbox
  reactor : s.mailbox.hasReactor = true
  own : s.mailbox.sender none = .idle
  mailboxSize : s.mailbox.recvMsgQueue.size = mailboxSize
  taskQueue : s.taskQueue.Valid
  taskQueueSize : s.taskQueue.size = taskQueueSize
  worker : ∀ t, s.running t ≠ none → s.mailbox.sender (some (some t)) = .idle
  inCallback : s.service ≠ .atLoop → s.mailbox.receiver = .inLoop

section Served

variable {s t : State κ τ}

/-- `Served` reads the connections, the bodies received and the poster only. -/
theorem Served.transfer (hs : Served s) (hconnection : t.connection = s.connection)
    (hrequests : t.requests = s.requests)
    (hserving : ∀ c, t.service.poster = some c → s.connection c ≠ none) : Served t where
  serving c hc := hconnection ▸ hserving c hc
  unknown c hc := hrequests ▸ hs.unknown c (hconnection ▸ hc)
  phase c conn hc := hs.phase c conn (hconnection ▸ hc)
  body c := hrequests ▸ hs.body c

theorem Served.keep (hs : Served s) (hconnection : t.connection = s.connection)
    (hrequests : t.requests = s.requests) (hservice : t.service = s.service) : Served t := by
  apply hs.transfer hconnection hrequests
  rw [hservice]
  exact hs.serving

theorem served_start (mailboxSize taskQueueSize : ℕ) (messages : ℕ → Message κ)
    (tasks : ℕ → MapTask κ) :
    Served (start mailboxSize taskQueueSize messages tasks : State κ τ) where
  serving := nofun
  unknown _ _ := rfl
  phase _ _ h := by simp [start] at h
  body _ _ h := by simp [start] at h

theorem Served.completedBody_eq (hs : Served s) {c : κ} {r : RecvResult}
    {conn : MapReduceConnection} {stream : Stream} {vecBytes : List UInt8}
    (hconn : s.connection c = some conn) (hpending : conn.stream.readPending = true)
    (hmay : conn.stream.mayRecv r = true)
    (hout : conn.stream.recvOnePack r = (stream, some (.recved, vecBytes)))
    (hbody : conn.stat = .recvBody) : completedBody s c r = some vecBytes := by
  obtain ⟨-, hstat⟩ := (hs.phase c conn hconn).recvOnePack_some hpending hmay hout
  rcases hstat with ⟨herr, -⟩ | ⟨-, hreceived, -⟩
  · exact absurd herr nofun
  · exact completedBody_eq_some.mpr ⟨conn, hconn, hbody, hreceived⟩

variable [DecidableEq κ]

theorem Served.set (hs : Served s) {c : κ} {conn : MapReduceConnection} (hconn : conn.Phase) :
    Served (setConnection s c conn) where
  serving d hd := by
    by_cases hdc : d = c
    · subst d
      simp [setConnection]
    · simpa [setConnection, Function.update_of_ne hdc] using hs.serving d hd
  unknown d hd := by
    by_cases hdc : d = c
    · subst d
      simp [setConnection] at hd
    · apply hs.unknown d
      simpa [setConnection, Function.update_of_ne hdc] using hd
  phase d conn' hd := by
    by_cases hdc : d = c
    · subst d
      obtain rfl : conn = conn' := by simpa [setConnection] using hd
      exact hconn
    · apply hs.phase d conn'
      simpa [setConnection, Function.update_of_ne hdc] using hd
  body := hs.body

/-- The loop over the names goes on with the next one or asks for a header. -/
theorem Served.loopHead (hs : Served s) (c : κ) {conn : MapReduceConnection}
    (hconn : conn.Phase) (paths : List (List UInt8)) :
    Served (MapReduceServer.loopHead s c conn paths) := by
  cases paths with
  | nil =>
      exact (hs.set MapReduceConnection.phase_recvHead.1).transfer rfl rfl nofun
  | cons path rest =>
      refine (hs.set hconn).transfer rfl rfl fun d hd => ?_
      obtain rfl : c = d := Option.some.inj hd
      simp [setConnection]

theorem Served.request (hs : Served s) {c : κ} {vecBytes : List UInt8}
    (hconn : s.connection c ≠ none) (hlen : vecBytes.length ≤ 1024) :
    Served { s with requests := Function.update s.requests c (s.requests c ++ [vecBytes]) } where
  serving := hs.serving
  unknown d hd := by
    have hdc : d ≠ c := by
      intro hdc
      rw [hdc] at hd
      exact hconn hd
    simpa [Function.update_of_ne hdc] using hs.unknown d hd
  phase := hs.phase
  body d body hbody := by
    by_cases hdc : d = c
    · subst d
      simp only [Function.update_self, List.mem_append, List.mem_singleton] at hbody
      rcases hbody with hbody | rfl
      · exact hs.body c body hbody
      · exact hlen
    · simp only [Function.update_of_ne hdc] at hbody
      exact hs.body d body hbody

theorem Served.recvCompleteCallback (hs : Served s) {c : κ} {r : RecvResult}
    {conn : MapReduceConnection} {stream : Stream} {retRecvStat : StreamStat}
    {vecBytes : List UInt8} (hconn : s.connection c = some conn)
    (hpending : conn.stream.readPending = true) (hmay : conn.stream.mayRecv r = true)
    (hout : conn.stream.recvOnePack r = (stream, some (retRecvStat, vecBytes))) :
    Served (MapReduceServer.recvCompleteCallback s c { conn with stream := stream } retRecvStat
      vecBytes) := by
  obtain ⟨hread, hstat⟩ := (hs.phase c conn hconn).recvOnePack_some hpending hmay hout
  have hidle : ({ conn with stream := stream } : MapReduceConnection).Phase :=
    MapReduceConnection.phase_of_idle hread
  rcases hstat with ⟨rfl, -⟩ | ⟨rfl, -, hlen, hfour⟩
  · apply hs.set
    simp only [MapReduceConnection.recvCompleteCallback, if_true]
    exact MapReduceConnection.phase_of_idle hread
  · by_cases hbody : conn.stat = .recvBody
    · rw [MapReduceServer.recvCompleteCallback, if_pos ⟨rfl, hbody⟩]
      apply (hs.request (by simp [hconn]) hlen).loopHead c hidle
    · rw [MapReduceServer.recvCompleteCallback, if_neg fun h => hbody h.2]
      apply hs.set
      exact (@MapReduceConnection.recvCompleteCallback_spec { conn with stream := stream }
        vecBytes hfour hread).1

theorem Served.onMessage (hs : Served s) (msg : Message κ) :
    Served (MapReduceServer.onMessage s msg) := by
  have hmsg := handles_onMessage s msg
  generalize MapReduceServer.onMessage s msg = u at hmsg ⊢
  cases hmsg with
  | starts c hconn => exact hs.set MapReduceConnection.phase_start.1
  | ignores c hconn => exact hs
  | delivers c conn maxNum hconn hopen =>
      obtain ⟨-, hstat, hread, hrecv⟩ := MapReduceConnection.onMessage_spec conn maxNum
      exact (hs.set ((hs.phase c conn hconn).keep hstat hread hrecv)).keep rfl rfl rfl
  | drops c maxNum hgone => exact hs

variable [DecidableEq τ] {files : FileSystem} {a : Action κ τ}

theorem Served.step (hs : Served s) (h : MapReduceServer.step files s a = some t) : Served t := by
  cases moves_of_step h with
  | receives c r conn stream hconn hloop hpending hmay hout =>
      exact hs.set ((hs.phase c conn hconn).recvOnePack_none hpending hmay hout).1
  | received c r conn stream retRecvStat vecBytes hconn hloop hpending hmay hout =>
      exact hs.recvCompleteCallback hconn hpending hmay hout
  | sends c r conn stream hconn hloop hpending hmay hout =>
      have hphase := (hs.phase c conn hconn).sendOnePack r
      rw [hout] at hphase
      exact (hs.set hphase).keep rfl rfl rfl
  | sent c r conn stream retSendStat hconn hloop hpending hmay hout =>
      have hphase := (hs.phase c conn hconn).sendOnePack r
      rw [hout] at hphase
      suffices hcall : MapReduceConnection.Phase
          (MapReduceConnection.sendCompleteCallback { conn with stream := stream } retSendStat) from
        (hs.set hcall).keep rfl rfl rfl
      unfold MapReduceConnection.sendCompleteCallback
      split_ifs
      · exact hphase.keep rfl rfl fun _ => id
      · exact hphase
  | post c path rest hservice hroom =>
      refine hs.transfer rfl rfl fun d hd => ?_
      apply hs.serving
      rw [hservice]
      exact hd
  | count c rest conn hservice hconn =>
      have hphase : conn.countTask.Phase :=
        (hs.phase c conn hconn).keep rfl rfl fun _ => id
      exact hs.loopHead c hphase rest
  | get mailbox msg hmail hmsg =>
      have hget : Served { s with mailbox := mailbox } := hs.keep rfl rfl rfl
      exact hget.onMessage msg
  | _ => exact hs.keep rfl rfl rfl

end Served

section Threads

theorem ne_none_of_update [DecidableEq τ] {running : τ → Option (MapTask κ)} {t t' : τ}
    (h : Function.update running t none t' ≠ none) : running t' ≠ none := by
  by_cases htt : t' = t
  · simp [htt] at h
  · rwa [Function.update_of_ne htt] at h

variable [Fintype τ] {mailboxSize taskQueueSize : ℕ} {s t : State κ τ}

theorem inv_start (hmailbox : 1 ≤ mailboxSize) (htaskQueue : 1 ≤ taskQueueSize)
    (messages : ℕ → Message κ) (tasks : ℕ → MapTask κ) :
    Inv mailboxSize taskQueueSize (start mailboxSize taskQueueSize messages tasks : State κ τ) where
  mailbox := InteractiveTask.inv_start true hmailbox messages
  reactor := rfl
  own := rfl
  mailboxSize := rfl
  taskQueue := ConcurrentRingBuffer.valid_new htaskQueue tasks
  taskQueueSize := rfl
  worker _ _ := rfl
  inCallback h := absurd rfl h

/-- An action of the mailbox, by a sender that has no task and outside a callback. -/
theorem Inv.mails [DecidableEq τ] (hs : Inv mailboxSize taskQueueSize s)
    {b : InteractiveTask.Action (Message κ) (Option τ)}
    {mailbox : InteractiveTask.Mailbox (Message κ) (Option τ)}
    (hmail : InteractiveTask.step s.mailbox b = some mailbox)
    (hsender : ∀ sender msg, b = .notifyMsg sender msg →
      sender ≠ none ∧ ∀ t, sender = some (some t) → s.running t = none)
    (hfire : b = .fire → s.service = .atLoop) :
    Inv mailboxSize taskQueueSize { s with mailbox := mailbox } := by
  have hmove := InteractiveTask.moves_of_step hmail
  obtain ⟨hreactor, hsize⟩ := hmove.frame
  refine { hs with mailbox := hs.mailbox.step hmail, reactor := hreactor.trans hs.reactor,
                   own := ?_, mailboxSize := hsize.trans hs.mailboxSize, worker := ?_,
                   inCallback := ?_ }
  · apply hmove.idle_of_idle hs.own
    intro msg hb
    exact (hsender none msg hb).1 rfl
  · intro t ht
    apply hmove.idle_of_idle (hs.worker t ht)
    intro msg hb
    exact ht ((hsender _ msg hb).2 t rfl)
  · intro hcallback
    apply hmove.inLoop_of_inLoop hs.reactor (hs.inCallback hcallback)
    intro hb
    exact hcallback (hfire hb)

/-- `Inv` reads the mailbox, the task queue and the workers only, and whether the service
is in its loop. -/
theorem Inv.transfer (hs : Inv mailboxSize taskQueueSize s) (hmailbox : t.mailbox = s.mailbox)
    (htaskQueue : t.taskQueue = s.taskQueue) (hrunning : t.running = s.running)
    (hcallback : t.service ≠ .atLoop → s.mailbox.receiver = .inLoop) :
    Inv mailboxSize taskQueueSize t where
  mailbox := hmailbox ▸ hs.mailbox
  reactor := hmailbox ▸ hs.reactor
  own := hmailbox ▸ hs.own
  mailboxSize := hmailbox ▸ hs.mailboxSize
  taskQueue := htaskQueue ▸ hs.taskQueue
  taskQueueSize := htaskQueue ▸ hs.taskQueueSize
  worker := hmailbox ▸ hrunning ▸ hs.worker
  inCallback := hmailbox ▸ hcallback

variable [DecidableEq κ] [DecidableEq τ] {files : FileSystem} {a : Action κ τ}

theorem Inv.step (hs : Inv mailboxSize taskQueueSize s)
    (h : MapReduceServer.step files s a = some t) : Inv mailboxSize taskQueueSize t := by
  cases moves_of_step h with
  | accept c mailbox hnew hmail =>
      have hmails : Inv mailboxSize taskQueueSize { s with mailbox := mailbox } := by
        refine hs.mails hmail ?_ nofun
        rintro sender msg ⟨⟩
        exact ⟨nofun, nofun⟩
      exact hmails.transfer rfl rfl rfl hmails.inCallback
  | receives c r conn stream hconn hloop hpending hmay hout =>
      exact hs.transfer rfl rfl rfl fun _ => hloop.2
  | received c r conn stream retRecvStat vecBytes hconn hloop hpending hmay hout =>
      obtain ⟨hmailbox, htaskQueue, hrunning⟩ := recvCompleteCallback_threads s c
        { conn with stream := stream } retRecvStat vecBytes
      exact hs.transfer hmailbox htaskQueue hrunning fun _ => hloop.2
  | sends c r conn stream hconn hloop hpending hmay hout =>
      exact hs.transfer rfl rfl rfl fun _ => hloop.2
  | sent c r conn stream retSendStat hconn hloop hpending hmay hout =>
      exact hs.transfer rfl rfl rfl fun _ => hloop.2
  | post c path rest hservice hroom =>
      refine { hs with taskQueue := hs.taskQueue.push _, taskQueueSize := hs.taskQueueSize,
                       inCallback := fun _ => ?_ }
      apply hs.inCallback
      simp [hservice]
  | count c rest conn hservice hconn =>
      obtain ⟨hmailbox, htaskQueue, hrunning⟩ := loopHead_threads s c conn.countTask rest
      refine hs.transfer hmailbox htaskQueue hrunning fun _ => hs.inCallback ?_
      simp [hservice]
  | take t hfree hidle hsome =>
      refine { hs with taskQueue := hs.taskQueue.pop, taskQueueSize := hs.taskQueueSize,
                       worker := fun t' ht' => ?_ }
      by_cases htt : t' = t
      · subst t'
        exact hidle
      · exact hs.worker t' (by simpa [Function.update_of_ne htt] using ht')
  | lockFails t task conn hrunning hconn hgone =>
      exact { hs with worker := fun t' ht' => hs.worker t' (ne_none_of_update ht') }
  | compute t junk task file mailbox hrunning hfile hmail =>
      have hfree : Inv mailboxSize taskQueueSize
          { s with running := Function.update s.running t none } :=
        { hs with worker := fun t' ht' => hs.worker t' (ne_none_of_update ht') }
      refine hfree.mails hmail ?_ nofun
      rintro sender msg ⟨⟩
      refine ⟨nofun, ?_⟩
      rintro t' ⟨⟩
      exact Function.update_self _ _ _
  | mails a b mailbox hb hloop hmail =>
      refine hs.mails hmail ?_ fun hfire => ?_
      · rintro sender msg rfl
        cases a <;> simp [mailboxAction] at hb
      · have ha : a = .fire := by
          subst b
          cases a <;> simp [mailboxAction] at hb ⊢
        exact (hloop ha).1
  | get mailbox msg hmail hmsg =>
      obtain ⟨hmailbox, htaskQueue, hrunning, hservice, -⟩ :=
        onMessage_threads { s with mailbox := mailbox } msg
      have hget := hs.mails hmail (by rintro sender msg ⟨⟩) nofun
      refine hget.transfer hmailbox htaskQueue hrunning fun hcallback => hget.inCallback ?_
      rwa [hservice] at hcallback

end Threads

end Banana.MapReduceServer
