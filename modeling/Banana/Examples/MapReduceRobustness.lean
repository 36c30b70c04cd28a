import Banana.Examples.FrameDecoder
import Banana.Examples.MapReduceOneRequest
import Banana.Network.ExactReceive

/-!
# What a request can do to the server

A map task asserts that its file is open, and sends whatever `maxNum` holds when
the first extraction fails.  So a request brings down the server if one of its
names is of no file, such as the empty name between two spaces, and gets an
indeterminate answer if one of its files is blank.  It can do neither exactly if it
is readable; then each of its tasks sends one message, which the contents of its
file determine, and the client is answered.
-/

namespace Banana

open Transition Threads

namespace MapReduceConnection

/-- How a call of `mapFunction` ends: at once if the connection has been destructed,
in the assertion, or with a message to the service. -/
inductive MapResult
  | returns
  | aborts
  | notifies (maxNum : NativeInt)

def mapResult (files : FileSystem) (isAlive : Bool) (filePath : List UInt8) (junk : NativeInt) :
    MapResult :=
  if isAlive then
    match files.content filePath with
    | none => .aborts
    | some file => .notifies (mapFunction file junk)
  else .returns

/-- The assertion holds, and the message does not depend on what the uninitialised
`maxNum` holds. -/
def Determined (files : FileSystem) (filePath : List UInt8) : Prop :=
  ∃ maxNum, ∀ junk, mapResult files true filePath junk = .notifies maxNum

theorem determined_iff {files : FileSystem} {filePath : List UInt8} :
    Determined files filePath ↔ ∃ file, files.content filePath = some file ∧ Assigns file := by
  unfold Determined mapResult
  cases hfile : files.content filePath with
  | none => simp
  | some file =>
      simp only [if_true, MapResult.notifies.injEq, Option.some.injEq, exists_eq_left']
      exact mapFunction_eq_iff file

theorem readable_iff {files : FileSystem} {vecBytes : List UInt8} :
    Readable files vecBytes ↔ ∀ path ∈ filePaths vecBytes, Determined files path :=
  forall₂_congr fun _ _ => determined_iff.symm

instance (file : InputFile) : Decidable (Assigns file) :=
  inferInstanceAs (Decidable (file.ints ≠ [] ∨ file.failValue ≠ none))

/-- The files that determine a message, cut down to them. -/
def determinedFiles (files : FileSystem) : FileSystem where
  content path := (files.content path).filter fun file => Assigns file
  content_nil := by rw [files.content_nil, Option.filter_none]

theorem determinedFiles_eq_some {files : FileSystem} {filePath : List UInt8} {file : InputFile} :
    (determinedFiles files).content filePath = some file ↔
      files.content filePath = some file ∧ Assigns file := by
  rw [determinedFiles, Option.filter_eq_some_iff, decide_eq_true_eq]

theorem content_determinedFiles_ne_none {files : FileSystem} {filePath : List UInt8} :
    (determinedFiles files).content filePath ≠ none ↔ Determined files filePath := by
  rw [Option.ne_none_iff_exists', determined_iff]
  exact exists_congr fun _ => determinedFiles_eq_some

instance (files : FileSystem) (filePath : List UInt8) : Decidable (Determined files filePath) :=
  decidable_of_iff ((determinedFiles files).content filePath ≠ none)
    content_determinedFiles_ne_none

instance (files : FileSystem) (vecBytes : List UInt8) : Decidable (Readable files vecBytes) :=
  decidable_of_iff _ readable_iff.symm

end MapReduceConnection

namespace MapReduceServer

open MapReduceConnection

open ScatterGather (Requested jobBest)

variable {κ τ : Type*}

/-- What a message is dispatched by. -/
def Message.getWhat : Message κ → String
  | .newConnect _ => "NEW_CONNECT"
  | .mapDone _ _ => "CONNECTION"

section Runs

variable [DecidableEq κ] [Fintype τ] {files : FileSystem} {mailboxSize taskQueueSize : ℕ}
  {s t : State κ τ} {c : κ} {vecBytes : List UInt8}

/-- Each task of a received body waits to be posted, waits to run or runs, or is done and
has sent the one message that its file determines. -/
def SentOnce (files : FileSystem) (s : State κ τ) (c : κ) : Prop :=
  ∃ done : Multiset (List UInt8),
    done + tasksOf s c + (s.service.unposted c : Multiset (List UInt8)) =
        (((s.requests c).map filePaths).flatten : Multiset (List UInt8)) ∧
      done.map (pathMax files) = (ledger s c).reduced + (ledger s c).results

theorem Reached.sentOnce (hs : Reached files mailboxSize taskQueueSize s) (hopen : Open s c)
    (hreadable : AllReadable files s c) : SentOnce files s c := by
  obtain ⟨done, hcomputes, hrequested, hcomputed⟩ := (hs.lossless c hopen).settled
  refine ⟨done.map Prod.fst, hrequested, ?_⟩
  rw [← hcomputed, Multiset.map_map]
  apply Multiset.map_congr rfl
  intro p hp
  refine (hreadable.computes_eq ?_ (hcomputes p hp)).symm
  rw [← Multiset.mem_coe, ← hrequested]
  exact Multiset.mem_add.mpr (.inl (Multiset.mem_add.mpr (.inl (Multiset.mem_map_of_mem _ hp))))

/-- A task that a worker runs names a piece of a body that its connection has received,
whether or not the connection is still there. -/
theorem running_requested {w : τ} {task : MapTask κ}
    (hs : Requested (ledger s task.connection)) (hrunning : s.running w = some task) :
    ∃ vecBytes ∈ s.requests task.connection, task.filePath ∈ filePaths vecBytes := by
  obtain ⟨job, hjob, hpath⟩ := List.mem_flatten.mp (hs.tasks _ (mem_tasksOf_running hrunning))
  obtain ⟨vecBytes, hvecBytes, rfl⟩ := List.mem_map.mp hjob
  exact ⟨vecBytes, hvecBytes, hpath⟩

variable [DecidableEq τ] {a : Action κ τ}

/-- No assertion fails, and at rest nothing is lost. -/
structure Robust (files : FileSystem) (s : State κ τ) : Prop where
  mapFunction : ∀ w task, s.running w = some task → Determined files task.filePath
  onMessage : ∀ msg, s.mailbox.receiver = .inOnMessage msg →
    msg.getWhat = "NEW_CONNECT" ∨ msg.getWhat = "CONNECTION"
  sentOnce : ∀ c, Open s c → SentOnce files s c
  settles : AtRest files s → ¬ CircularWait s → ∀ c, Open s c →
    (connectionOf s c).taskCount = 0 ∧
      (s.reduced c).length = ((s.requests c).map filePaths).flatten.length

/-- The server's own threads come to rest, and then the client is answered: what its
stream has sent and still sends is one number. -/
def Answered (files : FileSystem) (s : State κ τ) (c : κ) : Prop :=
  ∀ bs u, run (internalStep files) s bs = some u → bs.length ≤ work s ∧
    (AtRest files u → (connectionOf u c).taskCount = 0 ∧
      ∃ maxNum, u.replies c = [NativeInt.encode maxNum] ∧
        u.wire c ++ (connectionOf u c).stream.unsent = NativeInt.encode maxNum)

/-- Every run in which the body is all that the server has received. -/
def Withstands (τ : Type*) [Fintype τ] [DecidableEq τ] (files : FileSystem) (c : κ)
    (vecBytes : List UInt8) : Prop :=
  ∀ (messages : ℕ → Message κ) (tasks : ℕ → MapTask κ) (as : List (Action κ τ)) (s : State κ τ),
    run (step files) (start 50000 1000 messages tasks) as = some s →
    s.requests c = [vecBytes] → (∀ d, d ≠ c → s.requests d = []) →
    Robust files s ∧ (Open s c → Answered files s c)

/-- The condition on a step: a body that is received can be acted on. -/
def ReceivesReadable (files : FileSystem) (s : State κ τ) : Action κ τ → Prop
  | .readable c r => ∀ vecBytes ∈ completedBody s c r, Readable files vecBytes
  | _ => True

structure Acted (files : FileSystem) (mailboxSize taskQueueSize : ℕ) (s : State κ τ) : Prop where
  reached : Reached files mailboxSize taskQueueSize s
  requested : ∀ c, Requested (ledger s c)

theorem Acted.step (hs : Acted files mailboxSize taskQueueSize s)
    (h : MapReduceServer.step files s a = some t) :
    Acted files mailboxSize taskQueueSize t where
  reached := hs.reached.step h
  requested c := by
    cases simulated hs.reached.inv hs.reached.served (hs.reached.bounded c) h with
    | stutters hsame =>
        rw [hsame]
        exact hs.requested c
    | steps hstep => exact (hs.requested c).step hstep

omit [DecidableEq τ] in
theorem acted_start (hmailbox : 1 ≤ mailboxSize) (htaskQueue : 1 ≤ taskQueueSize)
    (messages : ℕ → Message κ) (tasks : ℕ → MapTask κ) :
    Acted files mailboxSize taskQueueSize
      (start mailboxSize taskQueueSize messages tasks : State κ τ) where
  reached := reached_start hmailbox htaskQueue messages tasks
  requested c := by
    rw [ledger_start _ _ hmailbox htaskQueue]
    exact ScatterGather.requested_start

theorem Acted.robust [Nonempty τ] (hs : Acted files mailboxSize taskQueueSize s)
    (hmailbox : 2 ≤ mailboxSize) (htaskQueue : 2 ≤ taskQueueSize)
    (hreadable : ∀ c, AllReadable files s c) : Robust files s := by
  have hdetermined : ∀ w task, s.running w = some task → Determined files task.filePath := by
    intro w task hrunning
    obtain ⟨vecBytes, hvecBytes, hpath⟩ := running_requested (hs.requested _) hrunning
    exact readable_iff.mp (hreadable _ vecBytes hvecBytes) _ hpath
  refine ⟨hdetermined, ?_, fun c hopen => hs.reached.sentOnce hopen (hreadable c), ?_⟩
  · intro msg _
    cases msg with
    | newConnect c => exact .inl rfl
    | mapDone c maxNum => exact .inr rfl
  · intro hrest hwait c hopen
    have hfiles : ∀ w task, s.running w = some task → files.content task.filePath ≠ none := by
      intro w task hrunning
      obtain ⟨file, hfile, -⟩ := determined_iff.mp (hdetermined w task hrunning)
      simp [hfile]
    have hquiet := (hs.reached.inv.quiet_or_circularWait hs.reached.served hmailbox htaskQueue
      hrest hfiles).resolve_right hwait
    have hzero : (ledger s c).outstanding = 0 := hquiet.outstanding_eq_zero
    have hidle : s.service.poster ≠ some c := by simp [hquiet.service, ServicePc.poster]
    have hconserved := (hs.reached.lossless c hopen).conserved
    rw [hzero] at hconserved
    refine ⟨?_, ?_⟩
    · rw [hs.reached.taskCount_eq hopen hidle, hzero]
      rfl
    · simpa [ledger] using hconserved

/-- In a run whose bodies are all readable, whoever sends them. -/
theorem robust_of_receivesReadable [Nonempty τ] {messages : ℕ → Message κ}
    {tasks : ℕ → MapTask κ} {as : List (Action κ τ)}
    (hal : Along (ReceivesReadable files) (step files) (start 50000 1000 messages tasks) as)
    (hrun : run (step files) (start 50000 1000 messages tasks) as = some s) : Robust files s := by
  have hall : Acted files 50000 1000 s ∧ ∀ c, AllReadable files s c := by
    refine run_invariant_along (I := fun s => Acted files 50000 1000 s ∧
      ∀ c, AllReadable files s c) ?_ ?_ hal hrun
    · intro s a t hs hreceives h
      refine ⟨hs.1.step h, ?_⟩
      intro c vecBytes hvecBytes
      rcases hs.1.reached.served.requests_step h c with
        hsame | ⟨r, vecBytes', hbody, rfl, -, hmore⟩
      · exact hs.2 c vecBytes (hsame ▸ hvecBytes)
      · rw [hmore, List.mem_append, List.mem_singleton] at hvecBytes
        rcases hvecBytes with hvecBytes | rfl
        · exact hs.2 c vecBytes hvecBytes
        · exact hreceives vecBytes hbody
    · refine ⟨acted_start (by decide) (by decide) messages tasks, ?_⟩
      intro c vecBytes hvecBytes
      simp [start] at hvecBytes
  exact hall.1.robust (by decide) (by decide) hall.2

theorem jobBest_eq_coe {paths : List (List UInt8)} (hsome : paths ≠ [])
    (hdetermined : ∀ path ∈ paths, ∃ file, files.content path = some file ∧ Assigns file) :
    ∃ maxNum : NativeInt, jobBest (pathMax files) paths = (maxNum : WithBot NativeInt) := by
  obtain ⟨path, rest, rfl⟩ := List.exists_cons_of_ne_nil hsome
  obtain ⟨file, hfile, hassigns⟩ := hdetermined path List.mem_cons_self
  have hle : pathMax files path ≤ jobBest (pathMax files) (path :: rest) :=
    Multiset.le_sup (Multiset.mem_map_of_mem _ (Multiset.mem_coe.mpr List.mem_cons_self))
  rw [pathMax_of_content hfile hassigns 0] at hle
  cases hbest : jobBest (pathMax files) (path :: rest) with
  | bot =>
      rw [hbest] at hle
      exact absurd hle (WithBot.not_coe_le_bot _)
  | coe maxNum => exact ⟨maxNum, rfl⟩

omit [DecidableEq κ] [Fintype τ] [DecidableEq τ] in
theorem allReadable_of_alone (hrequest : s.requests c = [vecBytes])
    (halone : ∀ d, d ≠ c → s.requests d = []) (hreadable : Readable files vecBytes) (d : κ) :
    AllReadable files s d := by
  intro v hv
  by_cases hdc : d = c
  · rw [hdc, hrequest, List.mem_singleton] at hv
    exact hv ▸ hreadable
  · rw [halone d hdc] at hv
    exact absurd hv List.not_mem_nil

/-- The one request that the server has received is answered. -/
theorem OneInTurn.answered [Nonempty τ] (hone : OneInTurn files 50000 1000 c s) (hopen : Open s c)
    (hacted : Acted files 50000 1000 s) (hrequest : s.requests c = [vecBytes])
    (halone : ∀ d, d ≠ c → s.requests d = []) (hsome : filePaths vecBytes ≠ [])
    (hreadable : Readable files vecBytes) : Answered files s c := by
  intro bs u hbs
  obtain ⟨hs, -⟩ := hone.conducts hrequest hsome hreadable hopen
  have hacted' : Acted files 50000 1000 u := run_invariant (I := Acted files 50000 1000)
    (fun _ _ _ hs h => hs.step (Option.ite_none_right_eq_some.mp h).2) hacted hbs
  obtain ⟨hu, hrequests, hwork⟩ := hs.run_internal hbs
  refine ⟨by omega, ?_⟩
  intro hrest
  have hrequest' : u.requests c = [vecBytes] := (hrequests c).trans hrequest
  have halone' : ∀ d, d ≠ c → u.requests d = [] := fun d hd => (hrequests d).trans (halone d hd)
  have hrobust : Robust files u := hacted'.robust (by decide) (by decide)
    (allReadable_of_alone hrequest' halone' hreadable)
  obtain ⟨maxNum, hbest⟩ := jobBest_eq_coe hsome hreadable
  have hreplies : u.replies c = [NativeInt.encode maxNum] := by
    rw [hu.replies_eq hrequest' hbest, if_pos (hu.outstanding_of_atRest (by decide) halone' hrest)]
  have hbytes :=
    ((hone.run_internal hbs).conducts hrequest' hsome hreadable hu.isOpen).2.bytes
  rw [hreplies, List.flatten_singleton] at hbytes
  exact ⟨(hrobust.settles hrest (hu.not_circularWait halone') c hu.isOpen).1, maxNum, hreplies,
    hbytes⟩

theorem withstands_of_readable [Nonempty τ] (hpos : 1 ≤ vecBytes.length)
    (hreadable : Readable files vecBytes) : Withstands τ files c vecBytes := by
  intro messages tasks as s hrun hrequest halone
  have hsome : filePaths vecBytes ≠ [] := by
    rw [filePaths, Ne, Utils.split_eq_nil_iff]
    rintro rfl
    simp at hpos
  have hacted : Acted files 50000 1000 s := run_invariant (fun _ _ _ hs h => hs.step h)
    (acted_start (by decide) (by decide) messages tasks) hrun
  refine ⟨hacted.robust (by decide) (by decide)
    (allReadable_of_alone hrequest halone hreadable), ?_⟩
  intro hopen
  have hone : OneInTurn files 50000 1000 c s := oneInTurn_of_run (by decide) (by decide) hrun
  exact hone.answered hopen hacted hrequest halone hsome hreadable

/-! ## Only a readable request -/

/-- The names that the service has still to post, whoever sent them. -/
def ServicePc.toPost : ServicePc κ → ℕ
  | .atLoop => 0
  | .atPost _ _ rest => rest.length + 1
  | .atCount _ rest => rest.length

omit [Fintype τ] [DecidableEq τ] in
theorem loopHead_toPost (s : State κ τ) (c : κ) (conn : MapReduceConnection)
    (paths : List (List UInt8)) : (loopHead s c conn paths).service.toPost = paths.length := by
  cases paths <;> rfl

/-- Nobody connects, and there is not more to do than `n` map tasks. -/
structure Confined (n : ℕ) (s : State κ τ) : Prop where
  accept : s.mailbox.sender (some none) = .idle
  load : load s + s.service.toPost ≤ n

section Internal

omit [Fintype τ]

/-- The server with fewer files stops where it would have gone on with another. -/
theorem step_of_determinedFiles (h : step (determinedFiles files) s a = some t) :
    step files s a = some t := by
  cases a with
  | compute w junk =>
      cases moves_of_step h with
      | compute _ _ task file mailbox hrunning hfile hmail =>
          obtain ⟨hfile, -⟩ := determinedFiles_eq_some.mp hfile
          simp [step, hrunning, hfile, mailboxStep, hmail]
      | mails _ b mailbox hb hloop hmail => simp [mailboxAction] at hb
  | _ => exact h

theorem internalStep_of_determinedFiles (h : internalStep (determinedFiles files) s a = some t) :
    step files s a = some t :=
  step_of_determinedFiles (Option.ite_none_right_eq_some.mp h).2

/-- The accept service has nothing to send unless a client connects. -/
theorem accept_idle_step (hidle : s.mailbox.sender (some none) = .idle)
    (h : internalStep files s a = some t) : t.mailbox.sender (some none) = .idle := by
  obtain ⟨hinternal, h⟩ := Option.ite_none_right_eq_some.mp h
  cases moves_of_step h with
  | accept c mailbox hnew hmail => simp [isInternal] at hinternal
  | received c r conn stream retRecvStat vecBytes hconn hloop hpending hmay hout =>
      simp [isInternal] at hinternal
  | count c rest conn hservice hconn =>
      rw [(loopHead_threads s c conn.countTask rest).1]
      exact hidle
  | compute w junk task file mailbox hrunning hfile hmail =>
      apply (InteractiveTask.moves_of_step hmail).idle_of_idle hidle
      intro msg hsend
      simpa using (InteractiveTask.Action.notifyMsg.inj hsend).1
  | mails _ b mailbox hb hloop hmail =>
      apply (InteractiveTask.moves_of_step hmail).idle_of_idle hidle
      rintro msg rfl
      cases a <;> simp [mailboxAction] at hb
  | get mailbox msg hmail hmsg =>
      rw [(onMessage_threads { s with mailbox := mailbox } msg).1]
      apply (InteractiveTask.moves_of_step hmail).idle_of_idle hidle
      intro msg
      simp
  | _ => exact hidle

/-- What the service posts, it had to post. -/
theorem toPost_step (hidle : s.mailbox.sender (some none) = .idle)
    (h : internalStep files s a = some t) : t.service.toPost + adds a ≤ s.service.toPost := by
  obtain ⟨hinternal, h⟩ := Option.ite_none_right_eq_some.mp h
  cases moves_of_step h with
  | post c path rest hservice hroom => simp [hservice, ServicePc.toPost, adds]
  | count c rest conn hservice hconn =>
      have hnew := loopHead_toPost s c conn.countTask rest
      rw [hnew, hservice]
      exact le_rfl
  | mails _ b mailbox hb hloop hmail =>
      have hput : a ≠ .put none := by
        rintro rfl
        simp [step, mailboxStep, InteractiveTask.step, hidle] at h
      have hadds : adds a = 0 := by
        unfold adds
        split
        · simp [mailboxAction] at hb
        · exact absurd rfl hput
        · rfl
      rw [hadds]
      exact le_rfl
  | get mailbox msg hmail hmsg =>
      obtain ⟨-, -, -, hservice, -⟩ := onMessage_threads { s with mailbox := mailbox } msg
      rw [hservice]
      exact le_rfl
  | take w hfree hidle' hsome => exact le_rfl
  | lockFails w task conn hrunning hconn hgone => exact le_rfl
  | compute w junk task file mailbox hrunning hfile hmail => exact le_rfl
  | _ => simp [isInternal] at hinternal

end Internal

theorem Confined.internalStep {n : ℕ} (hinv : Inv mailboxSize taskQueueSize s)
    (hs : Confined n s) (h : MapReduceServer.internalStep files s a = some t) : Confined n t := by
  have hload := hinv.load_step (Option.ite_none_right_eq_some.mp h).2
  have hposts := toPost_step hs.accept h
  have hbound := hs.load
  exact ⟨accept_idle_step hs.accept h, by omega⟩

/-! ## A request that comes alone -/

/-- A client that has just connected, and nothing else has happened. -/
structure Connected (c : κ) (s : State κ τ) : Prop where
  connection : s.connection c = some .start
  atLoop : AtLoop s
  requests : s.requests = fun _ => []
  confined : Confined 0 s

/-- The body that `c` has just sent is all that the server has received. -/
structure HasReceived (c : κ) (vecBytes : List UInt8) (s : State κ τ) : Prop where
  requests : s.requests c = [vecBytes]
  others : ∀ d, d ≠ c → s.requests d = []
  isOpen : Open s c
  confined : Confined (filePaths vecBytes).length s

theorem exists_connected (files : FileSystem) (c : κ) (messages : ℕ → Message κ)
    (tasks : ℕ → MapTask κ) :
    ∃ (as : List (Action κ τ)) (s : State κ τ),
      run (step files) (start 50000 1000 messages tasks) as = some s ∧ Connected c s := by
  obtain ⟨s, hrun, hconn, hloop, hrequests, hidle⟩ : ∃ s : State κ τ,
      run (step files) (start 50000 1000 messages tasks)
        [.accept c, .put none, .write none, .fire, .read, .get, .finish] = some s ∧
      s.connection c = some .start ∧ (s.service = .atLoop ∧ s.mailbox.receiver = .inLoop) ∧
      (s.requests = fun _ => []) ∧ s.mailbox.sender (some none) = .idle :=
    ⟨_, rfl, Function.update_self _ _ _, ⟨rfl, rfl⟩, rfl, rfl⟩
  have hinv : Inv 50000 1000 (start 50000 1000 messages tasks : State κ τ) :=
    inv_start (by decide) (by decide) messages tasks
  have hload := hinv.load_run hrun
  rw [load_start (by decide) (by decide)] at hload
  simp only [adds, takesOff, List.map_cons, List.map_nil, List.sum_cons, List.sum_nil] at hload
  refine ⟨_, s, hrun, hconn, hloop, hrequests, hidle, ?_⟩
  rw [hloop.1, ServicePc.toPost]
  omega

omit [Fintype τ] in
/-- A request to receive that one read event completes. -/
theorem step_readable (files : FileSystem) {conn : MapReduceConnection} {bytes buf : List UInt8}
    (hconn : s.connection c = some conn) (hloop : AtLoop s)
    (hcollects : conn.stream.Collects buf []) (hlen : bytes.length = buf.length) :
    ∃ stream : Stream, step files s (.readable c (.data bytes)) =
      some (recvCompleteCallback s c { conn with stream := stream } .recved bytes) := by
  have hreceived : conn.stream.received (.data bytes) = some bytes :=
    hcollects.received_of_eq hlen
  have hmay : conn.stream.mayRecv (.data bytes) = true := by
    have htotal := hcollects.total
    have hshort := hcollects.short
    rw [List.length_nil] at htotal hshort
    rw [Stream.mayRecv, decide_eq_true_eq]
    omega
  have hcall := Stream.recvOnePack_of_received hreceived
  rcases hout : conn.stream.recvOnePack (.data bytes) with ⟨stream, call⟩
  rw [hout] at hcall
  obtain rfl : call = some (.recved, bytes) := hcall
  refine ⟨stream, ?_⟩
  simp only [step, hconn, hout, hmay, hcollects.pending, and_self, hloop, if_true]

omit [Fintype τ] [DecidableEq τ] in
theorem recvCompleteCallback_header (s : State κ τ) (c : κ) {conn : MapReduceConnection}
    {bodyLen : ℕ} (hstat : conn.stat = .recvHead) (hle : bodyLen ≤ 1024) :
    recvCompleteCallback s c conn .recved (NativeInt.bytesOfNat 4 bodyLen) =
      setConnection s c
        { conn with stream := (conn.stream.asyncRecvBytes bodyLen).2, stat := .recvBody } := by
  have hnot : ¬ ((1024 : ℤ) < bodyLen) := by omega
  rw [recvCompleteCallback, if_neg (by simp [hstat])]
  simp [MapReduceConnection.recvCompleteCallback, hstat, recvHeadDone,
    decode_header (by omega : bodyLen < 2147483648), hnot]

/-- The header of a body that may come next. -/
theorem exists_step_header (files : FileSystem) (hs : Connected c s) {bodyLen : ℕ}
    (hpos : 1 ≤ bodyLen) (hle : bodyLen ≤ 1024) :
    ∃ conn buf, step files s (.readable c (.data (NativeInt.bytesOfNat 4 bodyLen))) =
        some (setConnection s c conn) ∧
      conn.stat = .recvBody ∧ conn.inMap = true ∧ conn.stream.Collects buf [] ∧
        buf.length = bodyLen := by
  have hconn := hs.connection
  rw [MapReduceConnection.start, startReadOrWriteInService_eq] at hconn
  have hhead := (Stream.new.collects_asyncRecvBytes (by decide : (1 : ℤ) ≤ 4) (by decide)).2
  have hlen : (NativeInt.bytesOfNat 4 bodyLen).length =
      (Stream.resize Stream.new.recvBuf (Int.toNat 4)).length := by
    rw [NativeInt.length_bytesOfNat, Stream.length_resize]
    rfl
  obtain ⟨stream, hread⟩ := step_readable files hconn hs.atLoop hhead hlen
  have hbody := (stream.collects_asyncRecvBytes (by omega : (1 : ℤ) ≤ bodyLen) (by omega)).2
  rw [recvCompleteCallback_header s c rfl hle] at hread
  refine ⟨_, _, hread, rfl, rfl, hbody, ?_⟩
  rw [Stream.length_resize, Int.toNat_natCast]

omit [DecidableEq τ] in
theorem hasReceived_loopHead {conn : MapReduceConnection} (hrequest : s.requests c = [vecBytes])
    (halone : ∀ d, d ≠ c → s.requests d = []) (hopen : Open s c) (hmap : conn.inMap = true)
    (hconfined : Confined 0 s) :
    HasReceived c vecBytes (loopHead s c conn (filePaths vecBytes)) := by
  obtain ⟨hmailbox, htaskQueue, hrunning⟩ := loopHead_threads s c conn (filePaths vecBytes)
  have hrequests := loopHead_requests s c conn (filePaths vecBytes)
  have htoPost := loopHead_toPost s c conn (filePaths vecBytes)
  have hopen' : Open (loopHead s c conn (filePaths vecBytes)) c :=
    hopen.loopHead (filePaths vecBytes) fun _ => hmap
  generalize loopHead s c conn (filePaths vecBytes) = u at *
  have hload : load u = load s := by simp only [load, hmailbox, htaskQueue, hrunning]
  have hbound := hconfined.load
  refine ⟨?_, ?_, hopen', ?_, by omega⟩
  · rw [hrequests, hrequest]
  · intro d hdc
    rw [hrequests, halone d hdc]
  · rw [hmailbox]
    exact hconfined.accept

/-- Any body that a header can announce can be all that the server receives. -/
theorem exists_hasReceived (files : FileSystem) (c : κ) (hpos : 1 ≤ vecBytes.length)
    (hle : vecBytes.length ≤ 1024) (messages : ℕ → Message κ) (tasks : ℕ → MapTask κ) :
    ∃ (as : List (Action κ τ)) (s : State κ τ),
      run (step files) (start 50000 1000 messages tasks) as = some s ∧
        HasReceived c vecBytes s := by
  obtain ⟨as, s, hrun, hs⟩ := exists_connected (τ := τ) files c messages tasks
  obtain ⟨conn, buf, hheader, hstat, hmap, hcollects, hlen⟩ :=
    exists_step_header files hs hpos hle
  have hconn : (setConnection s c conn).connection c = some conn := Function.update_self _ _ _
  obtain ⟨stream, hbody⟩ := step_readable files hconn hs.atLoop hcollects hlen.symm
  rw [recvCompleteCallback, if_pos ⟨rfl, hstat⟩] at hbody
  have hopen : Open (setConnection s c conn) c := by
    intro conn' hconn'
    obtain rfl : conn = conn' := Option.some.inj (hconn.symm.trans hconn')
    exact hmap
  have hrequest : Function.update s.requests c (s.requests c ++ [vecBytes]) c = [vecBytes] := by
    rw [Function.update_self, hs.requests, List.nil_append]
  have halone : ∀ d, d ≠ c →
      Function.update s.requests c (s.requests c ++ [vecBytes]) d = [] := by
    intro d hdc
    rw [Function.update_of_ne hdc, hs.requests]
  have hmap' : ({ conn with stream := stream } : MapReduceConnection).inMap = true := hmap
  have hreceived := hasReceived_loopHead (s := { setConnection s c conn with requests := _ })
    hrequest halone hopen hmap'
    ⟨hs.confined.accept, hs.confined.load⟩
  exact ⟨as ++ [_] ++ [_], _, run_concat_eq_some.mpr
    ⟨_, run_concat_eq_some.mpr ⟨s, hrun, hheader⟩, hbody⟩, hreceived⟩

theorem HasReceived.internalStep (hs : HasReceived c vecBytes s)
    (hreached : Reached files mailboxSize taskQueueSize s)
    (h : MapReduceServer.internalStep files s a = some t) : HasReceived c vecBytes t := by
  have hrequests := hreached.served.requests_internal h
  obtain ⟨hinternal, hstep⟩ := Option.ite_none_right_eq_some.mp h
  exact ⟨(hrequests c).trans hs.requests, fun d hdc => (hrequests d).trans (hs.others d hdc),
    hs.isOpen.internal hstep hinternal, hs.confined.internalStep hreached.inv h⟩

theorem HasReceived.quiet_of_atRest [Nonempty τ] (hs : HasReceived c vecBytes s)
    (hreached : Reached files 50000 1000 s) (hle : vecBytes.length ≤ 1024)
    (hrest : AtRest files s)
    (hfiles : ∀ w task, s.running w = some task → files.content task.filePath ≠ none) :
    Quiet s := by
  rcases hreached.inv.quiet_or_circularWait hreached.served (by decide) (by decide) hrest hfiles
    with hquiet | hwait
  · exact hquiet
  · obtain ⟨-, hload, -⟩ := hreached.inv.circularWait_iff.mp hwait
    have hbound := hs.confined.load
    have hfew := Utils.length_split_le vecBytes 32
    change (filePaths vecBytes).length ≤ vecBytes.length at hfew
    unfold capacity at hload
    omega

omit [DecidableEq τ] in
/-- With nothing left to do, every task has been done, and so its file was there. -/
theorem HasReceived.content_of_quiet (hs : HasReceived c vecBytes s)
    (hreached : Reached files 50000 1000 s) (hquiet : Quiet s) {path : List UInt8}
    (hpath : path ∈ filePaths vecBytes) : ∃ file, files.content path = some file := by
  obtain ⟨done, hcomputes, hrequested, -⟩ := (hreached.lossless c hs.isOpen).settled
  have hnone := hquiet.outstanding_eq_zero (c := c)
  unfold ScatterGather.State.outstanding at hnone
  have hunposted : (ledger s c).unposted = [] := List.length_eq_zero_iff.mp (by omega)
  have htasks : (ledger s c).tasks = 0 := Multiset.card_eq_zero.mp (by omega)
  have hflatten : (ledger s c).requests.flatten = filePaths vecBytes := by
    simp [ledger, hs.requests]
  rw [hunposted, htasks, hflatten, Multiset.coe_nil, add_zero, add_zero] at hrequested
  have hdone : path ∈ done.map Prod.fst := by
    rw [hrequested]
    exact hpath
  obtain ⟨p, hp, rfl⟩ := Multiset.mem_map.mp hdone
  obtain ⟨file, junk, hfile, -⟩ := hcomputes p hp
  exact ⟨file, hfile⟩

/-- Served from the files that determine a message alone, the server goes on to the
end of the request, unless a task runs into one of the others. -/
theorem readable_of_withstands [Nonempty τ] (hpos : 1 ≤ vecBytes.length)
    (hle : vecBytes.length ≤ 1024) (h : Withstands τ files c vecBytes) :
    Readable files vecBytes := by
  have hstep : ∀ s a t, Reached (determinedFiles files) 50000 1000 s →
      internalStep (determinedFiles files) s a = some t →
      Reached (κ := κ) (τ := τ) (determinedFiles files) 50000 1000 t :=
    fun s a t hs h => hs.step (Option.ite_none_right_eq_some.mp h).2
  obtain ⟨as, s, hrun, hs⟩ := exists_hasReceived (τ := τ) (determinedFiles files) c hpos hle
    (fun _ => .newConnect c) fun _ => ⟨c, []⟩
  have hreached : Reached (determinedFiles files) 50000 1000 s :=
    run_invariant (fun _ _ _ hs h => hs.step h) (reached_start (by decide) (by decide) _ _) hrun
  obtain ⟨bs, u, hbs, hrest⟩ := exists_run_to_rest hstep
    (fun s a t hs h => hs.inv.work_step (Option.ite_none_right_eq_some.mp h).2
      (Option.ite_none_right_eq_some.mp h).1) hreached
  obtain ⟨hu, hreachedu⟩ := run_invariant
    (I := fun u => HasReceived c vecBytes u ∧ Reached (determinedFiles files) 50000 1000 u)
    (fun s a t hs h => ⟨hs.1.internalStep hs.2 h, hstep s a t hs.2 h⟩) ⟨hs, hreached⟩ hbs
  have hserved : run (step files) (start 50000 1000 (fun _ => .newConnect c) fun _ => ⟨c, []⟩)
      (as ++ bs) = some u := by
    rw [run_append, run_mono (fun _ _ _ => step_of_determinedFiles) hrun]
    exact run_mono (fun _ _ _ => internalStep_of_determinedFiles) hbs
  have hrobust := (h _ _ _ u hserved hu.requests hu.others).1
  have hquiet := hu.quiet_of_atRest hreachedu hle hrest fun w task hrunning =>
    content_determinedFiles_ne_none.mpr (hrobust.mapFunction w task hrunning)
  intro path hpath
  obtain ⟨file, hfile⟩ := hu.content_of_quiet hreachedu hquiet hpath
  exact ⟨file, determinedFiles_eq_some.mp hfile⟩

/-- A request does no harm exactly if it is readable, and none do in a run whose bodies
are all readable. -/
theorem withstands_iff [Nonempty τ] (files : FileSystem) (c : κ) (vecBytes : List UInt8)
    (hpos : 1 ≤ vecBytes.length) (hle : vecBytes.length ≤ 1024) :
    (Withstands τ files c vecBytes ↔ Readable files vecBytes) ∧
      ∀ (messages : ℕ → Message κ) (tasks : ℕ → MapTask κ) (as : List (Action κ τ))
        (s : State κ τ),
        Along (ReceivesReadable files) (step files) (start 50000 1000 messages tasks) as →
        run (step files) (start 50000 1000 messages tasks) as = some s → Robust files s := by
  refine ⟨⟨readable_of_withstands hpos hle, withstands_of_readable hpos⟩, ?_⟩
  intro messages tasks as s hal hrun
  exact robust_of_receivesReadable hal hrun

end Runs

theorem withstands_iff_oneFile :
    Withstands (Fin 1) oneFile () [97] ∧ ¬ Withstands (Fin 1) oneFile () [97, 32, 98] := by
  refine ⟨(withstands_iff oneFile () [97] (by decide) (by decide)).1.mpr (by decide), ?_⟩
  rw [(withstands_iff oneFile () [97, 32, 98] (by decide) (by decide)).1]
  decide

def noFiles : FileSystem where
  content _ := none
  content_nil := rfl

/-- One file, `a`, with nothing in it. -/
def blankFile : FileSystem where
  content path := if path = [97] then some ⟨[], none⟩ else none
  content_nil := rfl

def oneWorker : State Unit (Fin 1) := start 50000 1000 (fun _ => .newConnect ()) fun _ => ⟨(), []⟩

/-- A request of one name, up to its map task. -/
def mapsOne (name : UInt8) : List (Action Unit (Fin 1)) :=
  newConnection ++
    [.readable () (.data [1, 0, 0, 0]), .readable () (.data [name]), .post, .take 0]

/-- The name in a body of one space is empty, and the assertion fails.  The blank file
can be opened, but what is sent is what `maxNum` happens to hold. -/
theorem not_withstands_blank :
    (∀ junk, mapResult noFiles true [] junk = .aborts) ∧
      ¬ Withstands (Fin 1) noFiles () [32] ∧
      (∀ junk, mapResult blankFile true [97] junk = .notifies junk) ∧
      ¬ Withstands (Fin 1) blankFile () [97] := by
  have hfails : ∀ (files : FileSystem) (name : UInt8) (path : List UInt8),
      ¬ Determined files path →
      (run (step files) oneWorker (mapsOne name)).map (fun s =>
        (s.requests (), (s.running 0).map MapTask.filePath)) = some ([[name]], some path) →
      ¬ Withstands (Fin 1) files () [name] := by
    intro files name path hpath hfacts hall
    obtain ⟨s, hrun, hs⟩ := Option.map_eq_some_iff.mp hfacts
    obtain ⟨hrequest, htask⟩ := Prod.mk.inj hs
    obtain ⟨task, hrunning, rfl⟩ := Option.map_eq_some_iff.mp htask
    have hrobust := (hall _ _ _ s hrun hrequest fun d hd => absurd rfl hd).1
    exact hpath (hrobust.mapFunction 0 task hrunning)
  refine ⟨fun _ => rfl, ?_, fun _ => rfl, ?_⟩
  · exact hfails noFiles 32 [] (by decide) (by decide +kernel)
  · exact hfails blankFile 97 [97] (by decide) (by decide +kernel)

end MapReduceServer

end Banana
