import Banana.Examples.MapReduceOneRequest

/-!
# Requests one after another

`taskCount_`, `curMaxNum_` and `firstCome_` belong to the connection and not to a
request, and `firstCome_` is never set again.  So requests that overlap are
answered together, and a request that follows another is answered with the
greatest number of both.  And a reply that is given to the stream while an
earlier one is being sent replaces what is left of it.

Each request gets its own answer as long as none of this happens: a request
arrives when all results of the earlier ones are in, with numbers that reach the
greatest so far, and its reply is due when the last one has been sent.
-/

namespace Banana.MapReduceServer

open Transition MapReduceConnection

open ScatterGather (InTurn Ascending jobBest runningBests)

variable {κ τ : Type*}

section Separate

variable [DecidableEq κ]

/-- The condition on a step: a body completes when no task is counted and it contains
the greatest number so far, and the last answer comes when no reply is being sent. -/
def Separate (files : FileSystem) (c : κ) (s : State κ τ) : Action κ τ → Prop
  | .readable d r => d = c → ∀ vecBytes ∈ completedBody s c r,
      (connectionOf s c).taskCount = 0 ∧
        ((connectionOf s c).firstCome = true ∨
          (connectionOf s c).curMaxNum ≤ requestMax files vecBytes)
  | .get => isAnswerFor c (nextMessage s) = true → (connectionOf s c).taskCount = 1 →
      (connectionOf s c).stream.writePending = false
  | _ => True

instance (files : FileSystem) (c : κ) (s : State κ τ) : ∀ a, Decidable (Separate files c s a)
  | .readable d r => inferInstanceAs (Decidable (d = c → ∀ vecBytes ∈ completedBody s c r,
      (connectionOf s c).taskCount = 0 ∧
        ((connectionOf s c).firstCome = true ∨
          (connectionOf s c).curMaxNum ≤ requestMax files vecBytes)))
  | .get => inferInstanceAs (Decidable (isAnswerFor c (nextMessage s) = true →
      (connectionOf s c).taskCount = 1 → (connectionOf s c).stream.writePending = false))
  | .put _ | .accept _ | .writable _ _ | .post | .count | .take _ | .lockFails _ | .compute _ _
  | .write _ | .fire | .read | .finish => isTrue trivial

end Separate

/-! ## Each request gets its own answer -/

section Isolation

/-- The reply to a request alone. -/
def ownReply (files : FileSystem) (vecBytes : List UInt8) : List UInt8 :=
  NativeInt.encode (requestMax files vecBytes)

variable {files : FileSystem} {s t : State κ τ} {c : κ} {a : Action κ τ}
  {vecBytes : List UInt8} {mailboxSize taskQueueSize : ℕ}

variable [DecidableEq κ]

theorem Separate.of_completedBody {r : RecvResult} (h : Separate files c s (.readable c r))
    (hbody : vecBytes ∈ completedBody s c r) :
    (connectionOf s c).taskCount = 0 ∧
      (connectionOf s c).best ≤ (requestMax files vecBytes : WithBot NativeInt) := by
  obtain ⟨hzero, hmax⟩ := h rfl vecBytes hbody
  refine ⟨hzero, ?_⟩
  unfold best
  rcases hmax with hfirst | hle
  · simp [hfirst]
  · split_ifs
    · exact bot_le
    · exact WithBot.coe_le_coe.mpr hle

variable [Fintype τ]

structure InOrder (files : FileSystem) (mailboxSize taskQueueSize : ℕ) (c : κ)
    (s : State κ τ) : Prop where
  reached : Reached files mailboxSize taskQueueSize s
  encoded : Encoded s
  wired : Open s c → Wired s c
  inTurn : Open s c → AllWellFormed files s c →
    InTurn (pathMax files) (ledger s c) ∧ Ascending (pathMax files) (ledger s c).requests

theorem Serves.replies_of_ascending (hs : Serves files mailboxSize taskQueueSize c s)
    (hascending : Ascending (pathMax files) (ledger s c).requests) :
    s.replies c = (if (ledger s c).outstanding = 0 then s.requests c
      else (s.requests c).dropLast).map (ownReply files) := by
  have hanswers : (ledger s c).answers =
      (ScatterGather.finished (ledger s c)).map (jobBest (pathMax files)) := by
    rw [hs.inTurn.answers]
    unfold ScatterGather.finished
    split_ifs
    · exact hascending
    · exact hascending.dropLast
  have hfinished : ScatterGather.finished (ledger s c) =
      (if (ledger s c).outstanding = 0 then s.requests c
        else (s.requests c).dropLast).map filePaths := by
    unfold ScatterGather.finished
    split_ifs
    · rfl
    · exact List.map_dropLast.symm
  generalize hdone : (if (ledger s c).outstanding = 0 then s.requests c
    else (s.requests c).dropLast) = done at hfinished ⊢
  have hsubset : ∀ v ∈ done, v ∈ s.requests c := by
    intro v hv
    rw [← hdone] at hv
    split_ifs at hv
    · exact hv
    · exact List.mem_of_mem_dropLast hv
  have hvalues : (ledger s c).answers =
      (done.map (requestMax files)).map ((↑) : NativeInt → WithBot NativeInt) := by
    rw [hanswers, hfinished, List.map_map, List.map_map]
    apply List.map_congr_left
    intro v hv
    exact (hs.wellFormed v (hsubset v hv)).jobBest_eq
  rw [hs.encoded.replies_eq hvalues, List.map_map]
  rfl

theorem InOrder.serves (hs : InOrder files mailboxSize taskQueueSize c s) (hopen : Open s c)
    (hwell : AllWellFormed files s c) : Serves files mailboxSize taskQueueSize c s :=
  ⟨hs.reached, hs.encoded, hopen, hwell, (hs.inTurn hopen hwell).1⟩

variable [DecidableEq τ]

theorem InOrder.step (hs : InOrder files mailboxSize taskQueueSize c s)
    (hseparate : Separate files c s a) (h : MapReduceServer.step files s a = some t) :
    InOrder files mailboxSize taskQueueSize c t where
  reached := hs.reached.step h
  encoded := hs.encoded.step h
  wired hopen := by
    refine (hs.wired (hopen.of_step h)).step hopen ?_ h
    rintro rfl
    exact hseparate
  inTurn hopen hwell := by
    have hold : Open s c := hopen.of_step h
    have hextends := hs.reached.served.requests_prefix h c
    obtain ⟨hturn, hascending⟩ := hs.inTurn hold (fun v hv => hwell v (hextends.subset hv))
    have hlossless := hs.reached.lossless c hold
    rcases hs.reached.served.requests_step h c with hsame | ⟨r, vecBytes, hbody, rfl, hloop, hmore⟩
    · constructor
      · apply hs.reached.inTurn_step h hopen hwell.readable hwell.named hturn
        intro vecBytes hmore
        simp [hsame] at hmore
      · simp only [ledger, hsame]
        exact hascending
    · -- the request finds nothing outstanding, so the best so far is that of all before it
      obtain ⟨hzero, hmax⟩ := hseparate.of_completedBody hbody
      have hidle : s.service.poster ≠ some c := by simp [hloop.1, ServicePc.poster]
      have hquiet : (ledger s c).outstanding = 0 := by
        rw [hs.reached.taskCount_eq hold hidle] at hzero
        exact Int.natCast_eq_zero.mp hzero
      have hrequest : WellFormed files vecBytes := hwell vecBytes (by simp [hmore])
      refine ⟨hs.reached.inTurn_step h hopen hwell.readable hwell.named hturn fun _ _ => hquiet, ?_⟩
      have hbest : (ledger s c).best =
          jobBest (pathMax files) (ledger s c).requests.flatten := by
        apply hlossless.best_of_done _ hquiet
        intro path hpath m hm
        have hold : AllWellFormed files s c := fun v hv => hwell v (hextends.subset hv)
        exact hold.readable.computes_eq hpath hm
      have hjobs : (ledger t c).requests = (ledger s c).requests ++ [filePaths vecBytes] := by
        simp [ledger, hmore]
      rw [hjobs]
      apply ScatterGather.ascending_snoc hascending
      rw [← hbest, hrequest.jobBest_eq]
      exact hmax

theorem inOrder_of_run (hmailbox : 1 ≤ mailboxSize) (htaskQueue : 1 ≤ taskQueueSize)
    {messages : ℕ → Message κ} {tasks : ℕ → MapTask κ} {as : List (Action κ τ)}
    (hal : Along (Separate files c) (step files)
      (start mailboxSize taskQueueSize messages tasks) as)
    (hrun : run (step files) (start mailboxSize taskQueueSize messages tasks) as = some s) :
    InOrder files mailboxSize taskQueueSize c s := by
  refine run_invariant_along (fun _ _ _ hs hp h => hs.step hp h) ?_ hal hrun
  refine ⟨reached_start hmailbox htaskQueue messages tasks, ?_, fun _ => wired_start _ _ _ _ _, ?_⟩
  · intro d bytes hbytes
    simp [start] at hbytes
  · rintro - -
    rw [ledger_start _ _ hmailbox htaskQueue]
    exact ⟨ScatterGather.inTurn_start, rfl⟩

/-- In a run along the condition each request of an open connection is answered once,
when all its results have been reduced, with the greatest number of its own files, and
the replies are sent in the order of the requests and complete.  When no other connection
has sent a request, the server's own threads come to the last reply in finitely many
steps, whatever their order. -/
theorem isolated_of_separate [Nonempty τ] {messages : ℕ → Message κ} {tasks : ℕ → MapTask κ}
    {as : List (Action κ τ)}
    (hal : Along (Separate files c) (step files) (start 50000 1000 messages tasks) as)
    (hrun : run (step files) (start 50000 1000 messages tasks) as = some s) (hopen : Open s c)
    (hwell : AllWellFormed files s c) :
    (s.replies c = (if (s.reduced c).length = ((s.requests c).map filePaths).flatten.length then
        s.requests c else (s.requests c).dropLast).map (ownReply files)) ∧
      s.wire c <+: ((s.requests c).map (ownReply files)).flatten ∧
      ((s.reduced c).length = ((s.requests c).map filePaths).flatten.length →
        (connectionOf s c).stream.writePending = false →
          s.wire c = ((s.requests c).map (ownReply files)).flatten) ∧
      ((∀ d, d ≠ c → s.requests d = []) → ∀ bs u, run (internalStep files) s bs = some u →
        bs.length ≤ work s ∧
          (AtRest files u → u.replies c = (s.requests c).map (ownReply files))) := by
  have horder : InOrder files 50000 1000 c s := inOrder_of_run (by decide) (by decide) hal hrun
  have hs := horder.serves hopen hwell
  have hascending := (horder.inTurn hopen hwell).2
  have hreplies := hs.replies_of_ascending hascending
  have hconserved := hs.conserved
  have hdone : (ledger s c).outstanding = 0 ↔
      (s.reduced c).length = ((s.requests c).map filePaths).flatten.length := by omega
  have hwire := (horder.wired hopen).bytes
  refine ⟨?_, ?_, fun hreduced hsent => ?_, fun halone bs u hbs => ?_⟩
  · rw [hreplies]
    exact congrArg _ (if_congr hdone rfl rfl)
  · have hsome : s.wire c <+: (s.replies c).flatten := ⟨_, hwire⟩
    apply hsome.trans
    rw [hreplies]
    split_ifs
    · exact List.prefix_rfl
    · exact ((List.dropLast_prefix _).map _).flatten
  · rw [Stream.unsent, hsent, if_neg (by simp), List.append_nil] at hwire
    rw [hwire, hreplies, if_pos (hdone.mpr hreduced)]
  · obtain ⟨hu, hrequests, hwork⟩ := hs.run_internal hbs
    refine ⟨by omega, fun hrest => ?_⟩
    have halone' : ∀ d, d ≠ c → u.requests d = [] := fun d hd => (hrequests d).trans (halone d hd)
    have hjobs : (ledger u c).requests = (ledger s c).requests := by simp [ledger, hrequests c]
    rw [hu.replies_of_ascending (hjobs ▸ hascending),
      if_pos (hu.conducts.outstanding_of_atRest (by decide) halone' hrest), hrequests c]

end Isolation

/-- A request for one file, which worker `t` computes, and its reply. -/
def oneRequest (name : UInt8) (t : Fin 2) : List (Action Unit (Fin 2)) :=
  [.readable () (.data [1, 0, 0, 0]), .readable () (.data [name]), .post, .take t, .count,
    .compute t 0, .put (some t), .write (some t), .fire, .read, .get, .finish,
    .writable () (.sent 4)]

theorem wellFormed_oneFile {name : UInt8} (h : name = 97 ∨ name = 98) :
    WellFormed twoFiles [name] := by
  have hpaths : filePaths [name] = [[name]] := by
    rcases h with rfl | rfl <;> decide
  refine ⟨by simp [hpaths], fun path hpath => ?_⟩
  rw [hpaths, List.mem_singleton] at hpath
  subst path
  rcases h with rfl | rfl <;> exact ⟨_, rfl, by simp⟩

/-- A request for `b`, and when it has been answered one for `a`. -/
def smallerFirst : List (Action Unit (Fin 2)) :=
  newConnection ++ oneRequest 98 0 ++ oneRequest 97 1

theorem isolated_of_separate_smallerFirst :
    ∃ s, run (step twoFiles) twoWorkers smallerFirst = some s ∧ s.requests () = [[98], [97]] ∧
      s.wire () = NativeInt.encode ⟨5, by decide⟩ ++ NativeInt.encode ⟨7, by decide⟩ := by
  have hfacts : (run (step twoFiles) twoWorkers smallerFirst).map (fun s =>
      (s.requests (), s.reduced (), (s.connection ()).map fun conn =>
        (conn.inMap, conn.stream.writePending))) =
      some ([[98], [97]], [⟨5, by decide⟩, ⟨7, by decide⟩], some (true, false)) := by
    decide +kernel
  obtain ⟨s, hrun, hs⟩ := Option.map_eq_some_iff.mp hfacts
  simp only [Prod.mk.injEq] at hs
  obtain ⟨hrequests, hreduced, hconn⟩ := hs
  obtain ⟨conn, hconn, hmap⟩ := Option.map_eq_some_iff.mp hconn
  rw [Prod.mk.injEq] at hmap
  have hal : Along (Separate twoFiles ()) (step twoFiles) twoWorkers smallerFirst := by
    decide +kernel
  have hopen : Open s () := by
    intro conn' hconn'
    obtain rfl : conn = conn' := Option.some.inj (hconn.symm.trans hconn')
    exact hmap.1
  have hwell : AllWellFormed twoFiles s () := by
    intro vecBytes hvecBytes
    rw [hrequests, List.mem_cons, List.mem_singleton] at hvecBytes
    rcases hvecBytes with rfl | rfl
    · exact wellFormed_oneFile (.inr rfl)
    · exact wellFormed_oneFile (.inl rfl)
  obtain ⟨-, -, hwire, -⟩ := isolated_of_separate hal hrun hopen hwell
  have hsent : (connectionOf s ()).stream.writePending = false := by
    rw [connectionOf, hconn]
    exact hmap.2
  have hreplies : ([[98], [97]].map (ownReply twoFiles)).flatten =
      NativeInt.encode ⟨5, by decide⟩ ++ NativeInt.encode ⟨7, by decide⟩ := by decide
  rw [hreduced, hrequests, hreplies] at hwire
  exact ⟨s, hrun, hrequests, hwire (by decide) hsent⟩

def greaterFirst : List (Action Unit (Fin 2)) :=
  newConnection ++ oneRequest 97 0 ++ oneRequest 98 1

/-- The second request is received while the task of the first is running. -/
def overlapping : List (Action Unit (Fin 2)) :=
  newConnection ++ (oneRequest 97 0).take 5 ++ (oneRequest 98 1).take 5 ++
    ((oneRequest 97 0).drop 5).dropLast ++ (oneRequest 98 1).drop 5

/-- The first reply has not been sent when the second is due. -/
def replyPending : List (Action Unit (Fin 2)) :=
  newConnection ++ (oneRequest 98 0).dropLast ++ oneRequest 97 1

theorem exists_of_facts (as : List (Action Unit (Fin 2))) (requests replies : List (List UInt8))
    (wire : List UInt8)
    (hfacts : (run (step twoFiles) twoWorkers as).map (fun s => (s.requests (), s.replies (),
      s.wire (), (s.connection ()).map fun conn => conn.inMap)) =
      some (requests, replies, wire, some true))
    (hall : ∀ vecBytes ∈ requests, vecBytes = [97] ∨ vecBytes = [98]) :
    ∃ s, run (step twoFiles) twoWorkers as = some s ∧ Open s () ∧ AllWellFormed twoFiles s () ∧
      s.requests () = requests ∧ s.replies () = replies ∧ s.wire () = wire := by
  obtain ⟨s, hrun, hs⟩ := Option.map_eq_some_iff.mp hfacts
  simp only [Prod.mk.injEq] at hs
  obtain ⟨rfl, rfl, rfl, hmap⟩ := hs
  refine ⟨s, hrun, ?_, ?_, rfl, rfl, rfl⟩
  · intro conn hconn
    simpa [hconn] using hmap
  · intro vecBytes hvecBytes
    rcases hall vecBytes hvecBytes with rfl | rfl
    · exact wellFormed_oneFile (.inl rfl)
    · exact wellFormed_oneFile (.inr rfl)

/-- The reply to a second request is the greatest number of the first; two requests that
overlap get one reply; a reply that is due before the earlier one has been sent replaces
it. -/
theorem not_isolated_greaterFirst :
    (∃ s, run (step twoFiles) twoWorkers greaterFirst = some s ∧ Open s () ∧
      AllWellFormed twoFiles s () ∧ s.requests () = [[97], [98]] ∧
      s.replies () = [NativeInt.encode ⟨7, by decide⟩, NativeInt.encode ⟨7, by decide⟩] ∧
      s.wire () = (s.replies ()).flatten) ∧
      (∃ s, run (step twoFiles) twoWorkers overlapping = some s ∧ Open s () ∧
        AllWellFormed twoFiles s () ∧ s.requests () = [[97], [98]] ∧
        s.replies () = [NativeInt.encode ⟨7, by decide⟩] ∧
        s.wire () = NativeInt.encode ⟨7, by decide⟩) ∧
      (∃ s, run (step twoFiles) twoWorkers replyPending = some s ∧ Open s () ∧
        AllWellFormed twoFiles s () ∧ s.requests () = [[98], [97]] ∧
        s.replies () = [NativeInt.encode ⟨5, by decide⟩, NativeInt.encode ⟨7, by decide⟩] ∧
        s.wire () = NativeInt.encode ⟨7, by decide⟩) ∧
      [[97], [98]].map (ownReply twoFiles) =
        [NativeInt.encode ⟨7, by decide⟩, NativeInt.encode ⟨5, by decide⟩] := by
  refine ⟨?_, ?_, ?_, by decide⟩
  · obtain ⟨s, hrun, hopen, hwell, hrequests, hreplies, hwire⟩ :=
      exists_of_facts greaterFirst [[97], [98]]
        [NativeInt.encode ⟨7, by decide⟩, NativeInt.encode ⟨7, by decide⟩]
        (NativeInt.encode ⟨7, by decide⟩ ++ NativeInt.encode ⟨7, by decide⟩)
        (by decide +kernel) (by decide)
    refine ⟨s, hrun, hopen, hwell, hrequests, hreplies, ?_⟩
    rw [hwire, hreplies]
    decide
  · exact exists_of_facts _ _ _ _ (by decide +kernel) (by decide)
  · exact exists_of_facts _ _ _ _ (by decide +kernel) (by decide)

end Banana.MapReduceServer
