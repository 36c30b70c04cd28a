import Banana.Examples.BenchmarkTest
import Banana.Examples.MapReduceProgress
import Banana.Examples.MapReduceWire

/-!
# The map-reduce of one request

The service posts a task before it counts it, so the task may be done first; its
answer still waits in the mailbox until the posting callback is over.  So the
counter comes to zero with the last answer and not before, and as the reduction
is a maximum, the reply does not depend on the order of the answers.
-/

namespace Banana.MapReduceServer

open Transition MapReduceConnection Threads

open ScatterGather (InTurn jobBest runningBests)

variable {κ τ : Type*}

section Requests

variable {s t : State κ τ}

def Encoded (s : State κ τ) : Prop := ∀ c, ∀ bytes ∈ s.replies c, ∃ z, bytes = NativeInt.encode z

theorem Encoded.deliver [DecidableEq κ] (hs : Encoded s) (c : κ) (conn : MapReduceConnection)
    (maxNum : NativeInt) : Encoded (MapReduceServer.deliver s c conn maxNum) := by
  intro d bytes hbytes
  unfold MapReduceServer.deliver at hbytes
  by_cases hdc : d = c
  · subst d
    simp only [Function.update_self, List.mem_append, Option.mem_toList,
      conn.onMessage_reply] at hbytes
    rcases hbytes with hbytes | hbytes
    · exact hs c bytes hbytes
    · split_ifs at hbytes
      exact ⟨_, (Option.some.inj hbytes).symm⟩
  · simp only [Function.update_of_ne hdc] at hbytes
    exact hs d bytes hbytes

variable [DecidableEq κ] [DecidableEq τ] {files : FileSystem} {a : Action κ τ}

theorem Served.requests_step (hs : Served s) (h : MapReduceServer.step files s a = some t) (c : κ) :
    t.requests c = s.requests c ∨
      ∃ r, ∃ vecBytes ∈ completedBody s c r, a = .readable c r ∧ AtLoop s ∧
        t.requests c = s.requests c ++ [vecBytes] := by
  cases moves_of_step h with
  | received d r conn stream retRecvStat vecBytes hconn hloop hpending hmay hout =>
      by_cases hbody : retRecvStat = .recved ∧ conn.stat = .recvBody
      · rw [MapReduceServer.recvCompleteCallback, if_pos hbody, loopHead_requests]
        by_cases hdc : d = c
        · subst d
          obtain ⟨rfl, hstat⟩ := hbody
          have hcompleted := hs.completedBody_eq hconn hpending hmay hout hstat
          exact .inr ⟨r, vecBytes, hcompleted, rfl, hloop, Function.update_self _ _ _⟩
        · exact .inl (Function.update_of_ne (Ne.symm hdc) _ _)
      · rw [MapReduceServer.recvCompleteCallback, if_neg hbody]
        exact .inl rfl
  | count d rest conn hservice hconn =>
      rw [loopHead_requests]
      exact .inl rfl
  | get mailbox msg hmail hmsg =>
      obtain ⟨-, -, -, -, hrequests⟩ := onMessage_threads { s with mailbox := mailbox } msg
      exact .inl (congrFun hrequests c)
  | _ => exact .inl rfl

theorem Served.requests_prefix (hs : Served s) (h : MapReduceServer.step files s a = some t)
    (c : κ) : s.requests c <+: t.requests c := by
  rcases hs.requests_step h c with hsame | ⟨r, vecBytes, -, -, -, hmore⟩
  · rw [hsame]
  · rw [hmore]
    exact List.prefix_append _ _

theorem Served.requests_internal (hs : Served s) (h : internalStep files s a = some t) (c : κ) :
    t.requests c = s.requests c := by
  obtain ⟨hinternal, h⟩ := Option.ite_none_right_eq_some.mp h
  rcases hs.requests_step h c with hsame | ⟨r, vecBytes, -, rfl, -, -⟩
  · exact hsame
  · simp [isInternal] at hinternal

theorem Encoded.step (hs : Encoded s) (h : MapReduceServer.step files s a = some t) :
    Encoded t := by
  cases moves_of_step h with
  | received d r conn stream retRecvStat vecBytes hconn hloop hpending hmay hout =>
      unfold MapReduceServer.recvCompleteCallback
      split_ifs
      · cases filePaths vecBytes <;> exact hs
      · exact hs
  | count d rest conn hservice hconn => cases rest <;> exact hs
  | get mailbox msg hmail hmsg =>
      have hhandles := handles_onMessage { s with mailbox := mailbox } msg
      generalize onMessage { s with mailbox := mailbox } msg = u at hhandles ⊢
      cases hhandles with
      | delivers d conn maxNum hconn hopen =>
          have hget : Encoded { s with mailbox := mailbox } := hs
          exact hget.deliver d conn maxNum
      | _ => exact hs
  | _ => exact hs

end Requests

section Answers

variable [DecidableEq κ] [Fintype τ] {files : FileSystem} {s : State κ τ} {c : κ}

def AllWellFormed (files : FileSystem) (s : State κ τ) (c : κ) : Prop :=
  ∀ vecBytes ∈ s.requests c, WellFormed files vecBytes

def AllReadable (files : FileSystem) (s : State κ τ) (c : κ) : Prop :=
  ∀ vecBytes ∈ s.requests c, Readable files vecBytes

def AllNamed (s : State κ τ) (c : κ) : Prop := ∀ vecBytes ∈ s.requests c, filePaths vecBytes ≠ []

omit [DecidableEq κ] [Fintype τ] in
theorem AllWellFormed.readable (h : AllWellFormed files s c) : AllReadable files s c :=
  fun vecBytes hvecBytes => (h vecBytes hvecBytes).readable

omit [DecidableEq κ] [Fintype τ] in
theorem AllWellFormed.named (h : AllWellFormed files s c) : AllNamed s c :=
  fun vecBytes hvecBytes => (h vecBytes hvecBytes).1

theorem AllReadable.readable (h : AllReadable files s c) {path : List UInt8}
    (hpath : path ∈ (ledger s c).requests.flatten) :
    ∃ file, files.content path = some file ∧ Assigns file := by
  obtain ⟨job, hjob, hpath⟩ := List.mem_flatten.mp hpath
  obtain ⟨vecBytes, hvecBytes, rfl⟩ := List.mem_map.mp hjob
  exact h vecBytes hvecBytes path hpath

theorem AllReadable.computes_eq (h : AllReadable files s c) {path : List UInt8}
    (hpath : path ∈ (ledger s c).requests.flatten) {m : WithBot NativeInt}
    (hm : computes files path m) : m = pathMax files path := by
  obtain ⟨file, hfile, hassigns⟩ := h.readable hpath
  obtain ⟨file', junk, hfile', rfl⟩ := hm
  obtain rfl : file = file' := Option.some.inj (hfile.symm.trans hfile')
  exact (pathMax_of_content hfile hassigns junk).symm

theorem Encoded.replies_eq (hs : Encoded s) {zs : List NativeInt}
    (hanswers : (ledger s c).answers = zs.map ((↑) : NativeInt → WithBot NativeInt)) :
    s.replies c = zs.map NativeInt.encode := by
  have hdecode : (s.replies c).map NativeInt.decode = zs := by
    apply List.map_injective_iff.mpr WithBot.coe_injective
    rw [List.map_map]
    exact hanswers
  rw [← hdecode, List.map_map]
  refine (List.map_id _).symm.trans (List.map_congr_left fun bytes hbytes => ?_)
  obtain ⟨z, rfl⟩ := hs c bytes hbytes
  simp

variable {mailboxSize taskQueueSize : ℕ} {vecBytes : List UInt8}

/-- An open connection whose requests, all well formed, have come one at a time. -/
structure Serves (files : FileSystem) (mailboxSize taskQueueSize : ℕ) (c : κ)
    (s : State κ τ) : Prop where
  reached : Reached files mailboxSize taskQueueSize s
  encoded : Encoded s
  isOpen : Open s c
  wellFormed : AllWellFormed files s c
  inTurn : InTurn (pathMax files) (ledger s c)

/-- As `Serves`, for requests whose files need not begin with a number. -/
structure Conducts (files : FileSystem) (mailboxSize taskQueueSize : ℕ) (c : κ)
    (s : State κ τ) : Prop where
  reached : Reached files mailboxSize taskQueueSize s
  encoded : Encoded s
  isOpen : Open s c
  readable : AllReadable files s c
  named : AllNamed s c
  inTurn : InTurn (pathMax files) (ledger s c)

theorem Serves.conducts (hs : Serves files mailboxSize taskQueueSize c s) :
    Conducts files mailboxSize taskQueueSize c s :=
  ⟨hs.reached, hs.encoded, hs.isOpen, hs.wellFormed.readable, hs.wellFormed.named, hs.inTurn⟩

theorem Serves.conserved (hs : Serves files mailboxSize taskQueueSize c s) :
    (ledger s c).outstanding + (s.reduced c).length =
      ((s.requests c).map filePaths).flatten.length := by
  have hconserved := (hs.reached.lossless c hs.isOpen).conserved
  simpa only [ledger, Multiset.coe_card, List.length_map] using hconserved

/-- The reply to the only request, when there is nothing left of it. -/
theorem Conducts.replies_eq (hs : Conducts files mailboxSize taskQueueSize c s)
    (hrequest : s.requests c = [vecBytes]) {maxNum : NativeInt}
    (hbest : jobBest (pathMax files) (filePaths vecBytes) = (maxNum : WithBot NativeInt)) :
    s.replies c = if (ledger s c).outstanding = 0 then [NativeInt.encode maxNum] else [] := by
  have hjobs : (ledger s c).requests = [filePaths vecBytes] := by simp [ledger, hrequest]
  have hanswers := hs.inTurn.answers
  unfold ScatterGather.finished at hanswers
  rw [hjobs] at hanswers
  split_ifs at hanswers ⊢ with hdone
  · have hone : runningBests (pathMax files) [filePaths vecBytes] =
        [maxNum].map ((↑) : NativeInt → WithBot NativeInt) := by
      simp [runningBests, ← hbest]
    exact hs.encoded.replies_eq (hanswers.trans hone)
  · have hnone : s.replies c = ([] : List NativeInt).map NativeInt.encode :=
      hs.encoded.replies_eq hanswers
    exact hnone

theorem Serves.replies_eq (hs : Serves files mailboxSize taskQueueSize c s)
    (hrequest : s.requests c = [vecBytes]) :
    s.replies c = if (ledger s c).outstanding = 0 then
      [NativeInt.encode (requestMax files vecBytes)] else [] := by
  have hwell : WellFormed files vecBytes := hs.wellFormed vecBytes (by simp [hrequest])
  exact hs.conducts.replies_eq hrequest hwell.jobBest_eq

structure AtMostOne (files : FileSystem) (mailboxSize taskQueueSize : ℕ) (c : κ)
    (s : State κ τ) : Prop where
  reached : Reached files mailboxSize taskQueueSize s
  encoded : Encoded s
  inTurn : Open s c → AllWellFormed files s c → (s.requests c).length ≤ 1 →
    InTurn (pathMax files) (ledger s c)

/-- Its requests need only be readable. -/
structure OneInTurn (files : FileSystem) (mailboxSize taskQueueSize : ℕ) (c : κ)
    (s : State κ τ) : Prop where
  reached : Reached files mailboxSize taskQueueSize s
  encoded : Encoded s
  inTurn : Open s c → AllReadable files s c → AllNamed s c → (s.requests c).length ≤ 1 →
    InTurn (pathMax files) (ledger s c)
  wired : Open s c → AllReadable files s c → AllNamed s c → (s.requests c).length ≤ 1 →
    Wired s c

/-- The reply to the only request is what its stream has sent and still sends. -/
theorem OneInTurn.conducts (hs : OneInTurn files mailboxSize taskQueueSize c s)
    (hrequest : s.requests c = [vecBytes]) (hsome : filePaths vecBytes ≠ [])
    (hreadable : Readable files vecBytes) (hopen : Open s c) :
    Conducts files mailboxSize taskQueueSize c s ∧ Wired s c := by
  have hall : AllReadable files s c := by
    intro v hv
    rw [hrequest, List.mem_singleton] at hv
    exact hv ▸ hreadable
  have hnamed : AllNamed s c := by
    intro v hv
    rw [hrequest, List.mem_singleton] at hv
    exact hv ▸ hsome
  have hone : (s.requests c).length ≤ 1 := by simp [hrequest]
  exact ⟨⟨hs.reached, hs.encoded, hopen, hall, hnamed, hs.inTurn hopen hall hnamed hone⟩,
    hs.wired hopen hall hnamed hone⟩

theorem OneInTurn.atMostOne (hs : OneInTurn files mailboxSize taskQueueSize c s) :
    AtMostOne files mailboxSize taskQueueSize c s :=
  ⟨hs.reached, hs.encoded, fun hopen hwell hone =>
    hs.inTurn hopen hwell.readable hwell.named hone⟩

theorem AtMostOne.serves (hs : AtMostOne files mailboxSize taskQueueSize c s)
    (hrequest : s.requests c = [vecBytes]) (hwell : WellFormed files vecBytes)
    (hopen : Open s c) : Serves files mailboxSize taskQueueSize c s := by
  have hall : AllWellFormed files s c := by
    intro v hv
    rw [hrequest, List.mem_singleton] at hv
    exact hv ▸ hwell
  exact ⟨hs.reached, hs.encoded, hopen, hall, hs.inTurn hopen hall (by simp [hrequest])⟩

/-- While the service does not post for the connection, the counter counts what is
outstanding. -/
theorem Reached.taskCount_eq (hs : Reached files mailboxSize taskQueueSize s) (hopen : Open s c)
    (hidle : s.service.poster ≠ some c) :
    (connectionOf s c).taskCount = (ledger s c).outstanding :=
  (hs.lossless c hopen).taskCount_eq (ledger_idle hidle).1 (ledger_idle hidle).2

theorem mem_tasksOf_running {w : τ} {task : MapTask κ} (hrunning : s.running w = some task) :
    task.filePath ∈ tasksOf s task.connection := by
  apply Multiset.mem_add.mpr
  right
  apply Multiset.mem_sum.mpr
  exact ⟨w, Finset.mem_univ w, by simp [hrunning, taskOf]⟩

theorem mem_sum_taskOf {queue : List (MapTask κ)} {task : MapTask κ} (htask : task ∈ queue) :
    task.filePath ∈ (queue.map (taskOf task.connection)).sum := by
  induction queue with
  | nil => simp at htask
  | cons first queue ih =>
      rw [List.map_cons, List.sum_cons, Multiset.mem_add]
      rcases List.mem_cons.mp htask with rfl | htask
      · simp [taskOf]
      · exact .inr (ih htask)

theorem card_sum_taskOf {queue : List (MapTask κ)} (hall : ∀ task ∈ queue, task.connection = c) :
    (queue.map (taskOf c)).sum.card = queue.length := by
  induction queue with
  | nil => rfl
  | cons first queue ih =>
      rw [List.forall_mem_cons] at hall
      simp only [List.map_cons, List.sum_cons, Multiset.card_add, List.length_cons, ih hall.2,
        taskOf, hall.1, if_true, Multiset.card_singleton]
      omega

theorem Reached.connection_eq (hs : Reached files mailboxSize taskQueueSize s)
    (halone : ∀ d, d ≠ c → s.requests d = []) {task : MapTask κ}
    (htask : task.filePath ∈ tasksOf s task.connection) : task.connection = c := by
  by_contra hother
  have hnone := (hs.bounded task.connection).outstanding_eq_zero
    (by simp [ledger, halone _ hother])
  have hpos := Multiset.card_pos_iff_exists_mem.mpr ⟨_, htask⟩
  simp only [ScatterGather.State.outstanding, ledger] at hnone
  omega

/-- A name takes two characters of a body, so no request has as many names as the
queue of the pool has places. -/
theorem Conducts.outstanding_lt (hs : Conducts files mailboxSize taskQueueSize c s) :
    (ledger s c).outstanding < 999 := by
  refine hs.inTurn.last.trans_lt ?_
  change (((s.requests c).map filePaths).getLastD []).length < 999
  rcases List.eq_nil_or_concat' (s.requests c) with hnone | ⟨init, vecBytes, hlast⟩
  · simp [hnone]
  · have hmem : vecBytes ∈ s.requests c := by simp [hlast]
    have hlen : vecBytes.length ≤ 1024 := hs.reached.served.body c vecBytes hmem
    have hpieces : ∀ path ∈ filePaths vecBytes, path ≠ [] := by
      rintro path hpath rfl
      obtain ⟨file, hfile, -⟩ := hs.readable vecBytes hmem [] hpath
      rw [files.content_nil] at hfile
      exact absurd hfile nofun
    have hnames : 2 * (filePaths vecBytes).length ≤ vecBytes.length + 1 :=
      Utils.two_mul_length_split_le hpieces
    rw [hlast, List.map_append, List.map_singleton, List.getLastD_concat]
    omega

theorem Conducts.not_circularWait (hs : Conducts files mailboxSize 1000 c s)
    (halone : ∀ d, d ≠ c → s.requests d = []) : ¬ CircularWait s := by
  intro hwait
  have hqueue : s.taskQueue.elements.length = 1000 - 1 := by
    rw [← hs.reached.inv.taskQueueSize]
    exact hs.reached.inv.taskQueue.full_iff.mp hwait.taskQueueFull
  have hcard : (s.taskQueue.elements.map (taskOf c)).sum.card = s.taskQueue.elements.length := by
    apply card_sum_taskOf
    intro task htask
    apply hs.reached.connection_eq halone
    exact Multiset.mem_add.mpr (.inl (mem_sum_taskOf htask))
  have hfew := hs.outstanding_lt
  simp only [ScatterGather.State.outstanding, ledger, tasksOf, Multiset.card_add] at hfew
  omega

theorem Quiet.outstanding_eq_zero (hquiet : Quiet s) : (ledger s c).outstanding = 0 := by
  simp [ScatterGather.State.outstanding, ledger, hquiet.service, ServicePc.unposted, tasksOf,
    hquiet.tasks, hquiet.running, total, InteractiveTask.inTransit, hquiet.sender, hquiet.messages,
    InteractiveTask.SenderPc.carried]

variable [DecidableEq τ] {t : State κ τ} {a : Action κ τ}

/-- Requests that come while nothing is outstanding are answered in turn. -/
theorem Reached.inTurn_step (hs : Reached files mailboxSize taskQueueSize s)
    (h : MapReduceServer.step files s a = some t) (hopen : Open t c)
    (hreadable : AllReadable files t c) (hnamed : AllNamed t c)
    (hturn : InTurn (pathMax files) (ledger s c))
    (hquiet : ∀ vecBytes, t.requests c = s.requests c ++ [vecBytes] →
      (ledger s c).outstanding = 0) : InTurn (pathMax files) (ledger t c) := by
  apply (simulated hs.inv hs.served (hs.bounded c) h).keeps hopen hturn
  intro hstep
  apply hturn.step (hs.lossless c (hopen.of_step h)) hstep
  · intro path hpath m hm
    exact hreadable.computes_eq hpath hm
  · intro job hjob
    rcases hs.served.requests_step h c with hsame | ⟨r, vecBytes, -, -, -, hmore⟩
    · have hlen := congrArg List.length hjob
      simp [ledger, hsame] at hlen
    · obtain rfl : filePaths vecBytes = job := by simpa [ledger, hmore] using hjob
      exact ⟨hquiet vecBytes hmore, hnamed vecBytes (by simp [hmore])⟩

/-- The last answer to the only request finds no reply being sent. -/
theorem Reached.idle_of_get (hs : Reached files mailboxSize taskQueueSize s) (hopen : Open s c)
    (h : MapReduceServer.step files s .get = some t)
    (hturn : InTurn (pathMax files) (ledger s c)) (hone : (s.requests c).length ≤ 1)
    (hwired : Wired s c) (hlast : (connectionOf s c).taskCount = 1) :
    (connectionOf s c).stream.writePending = false := by
  apply hwired.silent
  have hloop : s.service = .atLoop := by
    by_contra hcallback
    have hin := hs.inv.inCallback hcallback
    simp [MapReduceServer.step, InteractiveTask.step, hin] at h
  have hidle : s.service.poster ≠ some c := by simp [hloop, ServicePc.poster]
  have hleft : (ledger s c).outstanding ≠ 0 := by
    have hcount := hs.taskCount_eq hopen hidle
    omega
  have hanswers := hturn.answers
  have hnone : (ledger s c).requests.dropLast = [] := by
    apply List.eq_nil_of_length_eq_zero
    rw [List.length_dropLast]
    change ((s.requests c).map filePaths).length - 1 = 0
    rw [List.length_map]
    omega
  rw [ScatterGather.finished, if_neg hleft, hnone] at hanswers
  exact List.map_eq_nil_iff.mp hanswers

theorem OneInTurn.step (hs : OneInTurn files mailboxSize taskQueueSize c s)
    (h : MapReduceServer.step files s a = some t) :
    OneInTurn files mailboxSize taskQueueSize c t where
  reached := hs.reached.step h
  encoded := hs.encoded.step h
  inTurn hopen hreadable hnamed hone := by
    have hextends := hs.reached.served.requests_prefix h c
    have hturn := hs.inTurn (hopen.of_step h) (fun v hv => hreadable v (hextends.subset hv))
      (fun v hv => hnamed v (hextends.subset hv)) (hextends.length_le.trans hone)
    apply hs.reached.inTurn_step h hopen hreadable hnamed hturn
    intro vecBytes hmore
    apply (hs.reached.bounded c).outstanding_eq_zero
    rw [hmore, List.length_append, List.length_singleton] at hone
    have hnone : s.requests c = [] := List.length_eq_zero_iff.mp (by omega)
    simp [ledger, hnone]
  wired hopen hreadable hnamed hone := by
    have hextends := hs.reached.served.requests_prefix h c
    have hold : Open s c := hopen.of_step h
    have hreadable' : AllReadable files s c := fun v hv => hreadable v (hextends.subset hv)
    have hnamed' : AllNamed s c := fun v hv => hnamed v (hextends.subset hv)
    have hone' := hextends.length_le.trans hone
    have hwired := hs.wired hold hreadable' hnamed' hone'
    refine hwired.step hopen ?_ h
    rintro rfl - hlast
    exact hs.reached.idle_of_get hold h (hs.inTurn hold hreadable' hnamed' hone') hone' hwired hlast

theorem OneInTurn.run_internal (hs : OneInTurn files mailboxSize taskQueueSize c s)
    {bs : List (Action κ τ)} (hrun : run (MapReduceServer.internalStep files) s bs = some t) :
    OneInTurn files mailboxSize taskQueueSize c t :=
  run_invariant (fun _ _ _ hs h => hs.step (Option.ite_none_right_eq_some.mp h).2) hs hrun

theorem oneInTurn_of_run (hmailbox : 1 ≤ mailboxSize) (htaskQueue : 1 ≤ taskQueueSize)
    {messages : ℕ → Message κ} {tasks : ℕ → MapTask κ} {as : List (Action κ τ)}
    (hrun : run (step files) (start mailboxSize taskQueueSize messages tasks) as = some s) :
    OneInTurn files mailboxSize taskQueueSize c s := by
  refine run_invariant (fun _ _ _ hs h => hs.step h)
    ⟨?_, ?_, fun _ _ _ _ => ?_, fun _ _ _ _ => wired_start _ _ _ _ _⟩ hrun
  · exact reached_start hmailbox htaskQueue messages tasks
  · intro d bytes hbytes
    simp [start] at hbytes
  · rw [ledger_start _ _ hmailbox htaskQueue]
    exact ScatterGather.inTurn_start

/-! ## The server comes to rest -/

theorem Conducts.internalStep (hs : Conducts files mailboxSize taskQueueSize c s)
    (h : MapReduceServer.internalStep files s a = some t) :
    Conducts files mailboxSize taskQueueSize c t ∧ ∀ d, t.requests d = s.requests d := by
  have hrequests := hs.reached.served.requests_internal h
  obtain ⟨hinternal, h⟩ := Option.ite_none_right_eq_some.mp h
  have hopen : Open t c := hs.isOpen.internal h hinternal
  have hreadable : AllReadable files t c := by
    unfold AllReadable
    rw [hrequests c]
    exact hs.readable
  have hnamed : AllNamed t c := by
    unfold AllNamed
    rw [hrequests c]
    exact hs.named
  refine ⟨⟨hs.reached.step h, hs.encoded.step h, hopen, hreadable, hnamed, ?_⟩, hrequests⟩
  apply hs.reached.inTurn_step h hopen hreadable hnamed hs.inTurn
  intro vecBytes hmore
  simp [hrequests c] at hmore

theorem Conducts.run_internal {bs : List (Action κ τ)} {u : State κ τ}
    (hs : Conducts files mailboxSize taskQueueSize c s)
    (hrun : run (MapReduceServer.internalStep files) s bs = some u) :
    Conducts files mailboxSize taskQueueSize c u ∧ (∀ d, u.requests d = s.requests d) ∧
      bs.length + work u ≤ work s := by
  have hkept := run_invariant
    (I := fun u => Conducts files mailboxSize taskQueueSize c u ∧
      ∀ d, u.requests d = s.requests d)
    (fun v a w hv h => by
      obtain ⟨hw, hrequests⟩ := hv.1.internalStep h
      exact ⟨hw, fun d => (hrequests d).trans (hv.2 d)⟩)
    ⟨hs, fun _ => rfl⟩ hrun
  refine ⟨hkept.1, hkept.2, ?_⟩
  refine length_add_measure_le (I := Conducts files mailboxSize taskQueueSize c) ?_ ?_ hs hrun
  · intro v a w hv h
    exact (hv.internalStep h).1
  · intro v a w hv h
    obtain ⟨hinternal, h⟩ := Option.ite_none_right_eq_some.mp h
    exact hv.reached.inv.work_step h hinternal

theorem Serves.run_internal {bs : List (Action κ τ)} {u : State κ τ}
    (hs : Serves files mailboxSize taskQueueSize c s)
    (hrun : run (MapReduceServer.internalStep files) s bs = some u) :
    Serves files mailboxSize taskQueueSize c u ∧ (∀ d, u.requests d = s.requests d) ∧
      bs.length + work u ≤ work s := by
  obtain ⟨hu, hrequests, hwork⟩ := hs.conducts.run_internal hrun
  have hwell : AllWellFormed files u c := by
    unfold AllWellFormed
    rw [hrequests c]
    exact hs.wellFormed
  exact ⟨⟨hu.reached, hu.encoded, hu.isOpen, hwell, hu.inTurn⟩, hrequests, hwork⟩

theorem Conducts.outstanding_of_atRest [Nonempty τ] (hmailbox : 2 ≤ mailboxSize)
    (hs : Conducts files mailboxSize 1000 c s) (halone : ∀ d, d ≠ c → s.requests d = [])
    (hrest : AtRest files s) : (ledger s c).outstanding = 0 := by
  have hfiles : ∀ w task, s.running w = some task → files.content task.filePath ≠ none := by
    intro w task hrunning
    have htask := mem_tasksOf_running hrunning
    rw [hs.reached.connection_eq halone htask] at htask
    obtain ⟨file, hfile, -⟩ :=
      hs.readable.readable ((hs.reached.lossless c hs.isOpen).requested htask)
    simp [hfile]
  rcases hs.reached.inv.quiet_or_circularWait hs.reached.served hmailbox (by decide) hrest hfiles
    with hquiet | hwait
  · exact hquiet.outstanding_eq_zero
  · exact absurd hwait (hs.not_circularWait halone)

/-- The one request of a connection is answered once, when all its results have been
reduced and not before, with the greatest number of all its files, which is what the
benchmark computes serially, and what the stream has sent and still sends is that answer.
When no other connection has sent a request, the server's own threads come to it in
finitely many steps, whatever their order. -/
theorem order_independent [Nonempty τ] {messages : ℕ → Message κ} {tasks : ℕ → MapTask κ}
    {as : List (Action κ τ)}
    (hrun : run (step files) (start 50000 1000 messages tasks) as = some s)
    (hrequest : s.requests c = [vecBytes]) (hwell : WellFormed files vecBytes) (hopen : Open s c) :
    IsGreatest (requestInts files vecBytes) (requestMax files vecBytes) ∧
      (s.reduced c).length ≤ (filePaths vecBytes).length ∧
      (s.replies c = if (s.reduced c).length = (filePaths vecBytes).length then
        [NativeInt.encode (requestMax files vecBytes)] else []) ∧
      s.wire c ++ (connectionOf s c).stream.unsent = (s.replies c).flatten ∧
      (s.service.poster ≠ some c → ((connectionOf s c).taskCount = 0 ↔
        (s.reduced c).length = (filePaths vecBytes).length)) ∧
      ((∀ d, d ≠ c → s.requests d = []) → ∀ bs u, run (internalStep files) s bs = some u →
        bs.length ≤ work s ∧ (AtRest files u →
          u.replies c = [NativeInt.encode (requestMax files vecBytes)] ∧
            u.wire c ++ (connectionOf u c).stream.unsent =
              NativeInt.encode (requestMax files vecBytes))) := by
  have hone : OneInTurn files 50000 1000 c s := oneInTurn_of_run (by decide) (by decide) hrun
  have hs := hone.atMostOne.serves hrequest hwell hopen
  have hwired := (hone.conducts hrequest hwell.1 hwell.readable hopen).2
  have hcount := hs.conserved
  simp only [hrequest, List.map_singleton, List.flatten_singleton] at hcount
  have hdone : (ledger s c).outstanding = 0 ↔
      (s.reduced c).length = (filePaths vecBytes).length := by omega
  refine ⟨hwell.isGreatest_requestMax, by omega, ?_, hwired.bytes, fun hidle => ?_,
    fun halone bs u hbs => ?_⟩
  · rw [hs.replies_eq hrequest]
    exact if_congr hdone rfl rfl
  · rw [hs.reached.taskCount_eq hopen hidle, Int.natCast_eq_zero]
    exact hdone
  · obtain ⟨hu, hrequests, hwork⟩ := hs.run_internal hbs
    refine ⟨by omega, fun hrest => ?_⟩
    have hrequest' : u.requests c = [vecBytes] := (hrequests c).trans hrequest
    have halone' : ∀ d, d ≠ c → u.requests d = [] := fun d hd => (hrequests d).trans (halone d hd)
    have hreplies : u.replies c = [NativeInt.encode (requestMax files vecBytes)] := by
      rw [hu.replies_eq hrequest',
        if_pos (hu.conducts.outstanding_of_atRest (by decide) halone' hrest)]
    have hwired' := ((hone.run_internal hbs).conducts hrequest' hwell.1 hwell.readable hu.isOpen).2
    have hbytes := hwired'.bytes
    rw [hreplies, List.flatten_singleton] at hbytes
    exact ⟨hreplies, hbytes⟩

end Answers

/-- The file `a` has the numbers 3 and 7, the file `b` has 5. -/
def twoFiles : FileSystem where
  content path :=
    if path = [97] then some ⟨[⟨3, by decide⟩, ⟨7, by decide⟩], none⟩
    else if path = [98] then some ⟨[⟨5, by decide⟩], none⟩
    else none
  content_nil := rfl

def twoWorkers : State Unit (Fin 2) := start 50000 1000 (fun _ => .newConnect ()) fun _ => ⟨(), []⟩

/-- A request for `a` and `b`; the answer for `b` comes first. -/
def lastFirst : List (Action Unit (Fin 2)) :=
  newConnection ++
    [.readable () (.data [3, 0, 0, 0]), .readable () (.data [97, 32, 98]), .post, .take 0, .count,
      .post, .take 1, .compute 1 0, .put (some 1), .count, .write (some 1),
      .fire, .read, .get, .finish, .compute 0 0, .put (some 0), .write (some 0),
      .fire, .read, .get, .finish]

theorem order_independent_lastFirst :
    ∃ s, run (step twoFiles) twoWorkers lastFirst = some s ∧
      s.reduced () = [⟨5, by decide⟩, ⟨7, by decide⟩] ∧
      s.replies () = [NativeInt.encode ⟨7, by decide⟩] ∧
      s.wire () ++ (connectionOf s ()).stream.unsent = NativeInt.encode ⟨7, by decide⟩ := by
  have hfacts : (run (step twoFiles) twoWorkers lastFirst).map (fun s =>
      (s.requests (), s.reduced (), (s.connection ()).map fun conn => conn.inMap)) =
      some ([[97, 32, 98]], [⟨5, by decide⟩, ⟨7, by decide⟩], some true) := by
    decide +kernel
  obtain ⟨s, hrun, hs⟩ := Option.map_eq_some_iff.mp hfacts
  simp only [Prod.mk.injEq] at hs
  obtain ⟨hrequest, hreduced, hmap⟩ := hs
  have hpaths : filePaths [97, 32, 98] = [[97], [98]] := by decide
  have hwell : WellFormed twoFiles [97, 32, 98] := by
    refine ⟨by simp [hpaths], fun path hpath => ?_⟩
    rw [hpaths, List.mem_cons, List.mem_singleton] at hpath
    rcases hpath with rfl | rfl
    · exact ⟨_, rfl, by simp⟩
    · exact ⟨_, rfl, by simp⟩
  have hopen : Open s () := by
    intro conn hconn
    simpa [hconn] using hmap
  obtain ⟨-, -, hreply, hbytes, -⟩ := order_independent hrun hrequest hwell hopen
  have hmax : requestMax twoFiles [97, 32, 98] = ⟨7, by decide⟩ := by decide
  rw [hreduced, hpaths, hmax] at hreply
  rw [hreply] at hbytes
  exact ⟨s, hrun, hreduced, hreply, hbytes⟩

end Banana.MapReduceServer
