import Banana.MultiThreading.TaskOrder
import Banana.Network.NetAcceptService

/-!
# Every accepted connection is served

The tasks of a `TcpServer` once all of them run: `NetAcceptService` sends one message
for each fd that its listener accepts, and the handlers of a `NetWorkService` send none.
So the tasks are ranked, and what the accept service has given out arrives, even if all
the mailboxes are full for a time.
-/

namespace Banana.NetAcceptService

open RoundRobin TaskNetwork Transition

inductive Members
  | acceptService (curServiceIndex : ℕ)
  | workService (streams : List ℕ)

variable {n : ℕ}

/-- `__onAccept`, with `curServiceIndex_` before it. -/
def onAccept (n cur clientFd : ℕ) : Members × List (Option (Fin n) × Message) :=
  if hlt : nextServiceIndex n cur < n then
    (.acceptService (nextServiceIndex n cur),
      [(some ⟨nextServiceIndex n cur, hlt⟩, .newConnect clientFd)])
  else (.acceptService (nextServiceIndex n cur), [])

/-- The accept service is `none`.  An event is an fd that its listener hands over. -/
def tasks (n : ℕ) : Behaviour (Option (Fin n)) Message ℕ Members where
  hasReactor _ := true
  onStart
    | none => (.acceptService 0, [])
    | some _ => (.workService [], [])
  onMessage
    | some _, .workService streams, .newConnect clientFd =>
        (.workService (streams ++ [clientFd]), [])
    | _, members, _ => (members, [])
  onEvent
    | none, .acceptService cur, clientFd => onAccept n cur clientFd
    | _, members, _ => (members, [])

theorem tasks_ranked : Ranked (tasks n) fun i => if i = none then 1 else 0 where
  onStart i p hp := by
    cases i <;> cases hp
  onMessage i members msg p hp := by
    cases i <;> cases members <;> cases msg <;> cases hp
  onEvent i members clientFd p hp := by
    cases i with
    | some i => cases members <;> cases hp
    | none =>
        cases members with
        | workService streams => cases hp
        | acceptService cur =>
            simp only [tasks, onAccept] at hp
            split_ifs at hp with hlt
            · obtain rfl := List.mem_singleton.mp hp
              exact Nat.one_pos
            · cases hp

def accepts : TaskNetwork.Action (Option (Fin n)) ℕ → Option ℕ
  | .onEvent none clientFd => some clientFd
  | _ => none

/-- The fds that the listener has handed over, in order. -/
def acceptedFds (as : List (TaskNetwork.Action (Option (Fin n)) ℕ)) : List ℕ :=
  as.filterMap accepts

/-- The accept service goes round the services; a service has a stream for each message. -/
structure Turns (fds : List ℕ) (s : Network (Option (Fin n)) Message Members) : Prop where
  index : s.members none = .acceptService (fds.length % n)
  asked : ∀ i : Fin n, labelled (some i) (s.asked none) = (share n i fds).map .newConnect
  silent : ∀ i : Fin n, s.asked (some i) = []
  streams : ∀ i : Fin n, s.members (some i) =
    .workService (newConnects ((s.mailbox (some i)).handledLog.map Prod.snd))

theorem turns_start (size : ℕ) (buff : ℕ → Option (Fin n) × Message) :
    Turns [] (TaskNetwork.start (tasks n) size buff) where
  index := congrArg Members.acceptService (Nat.zero_mod n).symm
  asked _ := rfl
  silent _ := rfl
  streams _ := rfl

section Steps

variable {κ : Type*} [DecidableEq κ] {m m' : InteractiveTask.Mailbox (κ × Message) κ}

theorem handledLog_of_ne {a : InteractiveTask.Action (κ × Message) κ}
    (h : InteractiveTask.step m a = some m') (ha : a ≠ .syncGet) :
    m'.handledLog = m.handledLog := by
  cases InteractiveTask.moves_of_step h with
  | syncGet hat hsome => exact absurd rfl ha
  | _ => rfl

theorem handledLog_syncGet {p : κ × Message} (h : InteractiveTask.step m .syncGet = some m')
    (hin : m'.receiver = .inOnMessage p) : m'.handledLog = m.handledLog ++ [p] := by
  cases InteractiveTask.moves_of_step h with
  | syncGet hat hsome => rw [← InteractiveTask.ReceiverPc.inOnMessage.inj hin]

end Steps

variable {fds : List ℕ} {s u : Network (Option (Fin n)) Message Members}

/-- Nobody handles a `NewConnectMessage` in the step. -/
theorem Turns.keeps (hs : Turns fds s) (hmembers : u.members = s.members)
    (hasked : u.asked = s.asked)
    (hlog : ∀ i : Fin n, newConnects ((u.mailbox (some i)).handledLog.map Prod.snd) =
      newConnects ((s.mailbox (some i)).handledLog.map Prod.snd)) : Turns fds u := by
  refine ⟨?_, fun i => ?_, fun i => ?_, fun i => ?_⟩
  · rw [hmembers, hs.index]
  · rw [hasked, hs.asked i]
  · rw [hasked, hs.silent i]
  · rw [hmembers, hs.streams i, hlog]

theorem Turns.mail (hs : Turns fds s) {j : Option (Fin n)}
    {a : InteractiveTask.Action (Option (Fin n) × Message) (Option (Fin n))}
    {mailbox : InteractiveTask.Mailbox (Option (Fin n) × Message) (Option (Fin n))}
    (h : InteractiveTask.step (s.mailbox j) a = some mailbox) (ha : a ≠ .syncGet)
    (hmembers : u.members = s.members) (hasked : u.asked = s.asked)
    (hmailbox : u.mailbox = Function.update s.mailbox j mailbox) : Turns fds u := by
  refine hs.keeps hmembers hasked fun i => ?_
  rw [hmailbox]
  by_cases hj : some i = j
  · subst hj
    rw [Function.update_self, handledLog_of_ne h ha]
  · rw [Function.update_of_ne hj]

/-- A handler that sends nothing, of any task. -/
theorem Turns.handle (hs : Turns fds s) {i : Option (Fin n)} {members : Members}
    (hmembers : members = s.members i) : Turns fds (handle s i (members, [])) := by
  refine hs.keeps ?_ ?_ fun _ => rfl
  · rw [hmembers]
    exact Function.update_eq_self _ _
  · exact (congrArg (Function.update s.asked i) (List.append_nil _)).trans
      (Function.update_eq_self _ _)

/-- `onMessage` makes a stream of a `NewConnectMessage`, and of no other. -/
theorem Turns.syncGet (hs : Turns fds s) {i j : Option (Fin n)} {msg : Message}
    {mailbox : InteractiveTask.Mailbox (Option (Fin n) × Message) (Option (Fin n))}
    (h : InteractiveTask.step (s.mailbox i) .syncGet = some mailbox)
    (hin : mailbox.receiver = .inOnMessage (j, msg)) :
    Turns fds (TaskNetwork.handle { s with mailbox := Function.update s.mailbox i mailbox } i
      ((tasks n).onMessage i (s.members i) msg)) := by
  have hlog := handledLog_syncGet h hin
  have hsame : (∀ k, i = some k → clientFd msg = none) →
      Turns fds { s with mailbox := Function.update s.mailbox i mailbox } := by
    intro hno
    refine hs.keeps rfl rfl fun k => ?_
    change newConnects ((Function.update s.mailbox i mailbox (some k)).handledLog.map _) = _
    by_cases hk : some k = i
    · subst hk
      rw [Function.update_self, hlog, List.map_append, List.map_singleton, newConnects_concat,
        hno k rfl, Option.toList_none, List.append_nil]
    · rw [Function.update_of_ne hk]
  cases i with
  | none => exact (hsame nofun).handle rfl
  | some i =>
      rw [hs.streams i]
      cases msg with
      | connection handle => exact (hsame fun _ _ => rfl).handle (hs.streams i).symm
      | other => exact (hsame fun _ _ => rfl).handle (hs.streams i).symm
      | newConnect clientFd =>
          have hne : none ≠ some i := nofun
          refine ⟨?_, fun k => ?_, fun k => ?_, fun k => ?_⟩
          · exact (handle_members_of_ne _ _ hne).trans hs.index
          · rw [handle_asked_of_ne _ _ hne]
            exact hs.asked k
          · by_cases hk : some k = some i
            · rw [hk, handle_asked]
              exact (List.append_nil _).trans (hs.silent i)
            · rw [handle_asked_of_ne _ _ hk]
              exact hs.silent k
          · change _ = Members.workService
              (newConnects ((Function.update s.mailbox (some i) mailbox (some k)).handledLog.map _))
            by_cases hk : some k = some i
            · rw [hk, handle_members, Function.update_self, hlog, List.map_append,
                List.map_singleton, newConnects_concat]
              rfl
            · rw [handle_members_of_ne _ _ hk, Function.update_of_ne hk]
              exact hs.streams k

theorem Turns.onAccept [NeZero n] (hs : Turns fds s) (clientFd : ℕ) :
    Turns (fds ++ [clientFd])
      (TaskNetwork.handle s none ((tasks n).onEvent none (s.members none) clientFd)) := by
  have hnext : nextServiceIndex n (fds.length % n) = (fds.length + 1) % n := by
    rw [nextServiceIndex_eq (Nat.mod_lt _ (NeZero.pos n)), Nat.mod_add_mod]
  obtain ⟨turn, hturn⟩ : ∃ turn : Fin n, turn.val = (fds.length + 1) % n :=
    ⟨⟨_, Nat.mod_lt _ (NeZero.pos n)⟩, rfl⟩
  have hout : (tasks n).onEvent none (s.members none) clientFd =
      (.acceptService ((fds.length + 1) % n), [(some turn, .newConnect clientFd)]) := by
    rw [hs.index]
    change NetAcceptService.onAccept n _ _ = _
    rw [NetAcceptService.onAccept]
    simp only [hnext, ← hturn, turn.isLt, dite_true]
  have hne : ∀ i : Fin n, some i ≠ none := fun _ => nofun
  rw [hout]
  refine ⟨?_, fun i => ?_, fun i => ?_, fun i => ?_⟩
  · rw [handle_members, List.length_append, List.length_singleton]
  · rw [handle_asked, labelled_append, hs.asked i, share_concat, List.map_append,
      labelled_cons, labelled_nil, List.append_nil, ← hturn]
    congr 1
    by_cases hi : turn = i
    · rw [if_pos (congrArg some hi), if_pos (congrArg Fin.val hi)]
      rfl
    · rw [if_neg fun heq => hi (Option.some.inj heq), if_neg fun heq => hi (Fin.ext heq)]
      rfl
  · rw [handle_asked_of_ne _ _ (hne i)]
    exact hs.silent i
  · rw [handle_members_of_ne _ _ (hne i)]
    exact hs.streams i

theorem Turns.of_quiet {a : TaskNetwork.Action (Option (Fin n)) ℕ} (ha : accepts a = none)
    (hu : Turns fds u) : Turns (fds ++ (accepts a).toList) u := by
  rwa [ha, Option.toList_none, List.append_nil]

theorem Turns.step [NeZero n] (hs : Turns fds s)
    {a : TaskNetwork.Action (Option (Fin n)) ℕ} (h : TaskNetwork.step (tasks n) s a = some u) :
    Turns (fds ++ (accepts a).toList) u := by
  cases moves_of_step h with
  | notifyMsg i j msg rest mailbox hscript hmail =>
      exact .of_quiet rfl (hs.mail hmail nofun rfl rfl rfl)
  | syncPut i j msg rest mailbox hscript hmail =>
      exact .of_quiet rfl (hs.mail hmail nofun rfl rfl rfl)
  | write i j msg rest mailbox hscript hmail =>
      exact .of_quiet rfl (hs.mail hmail nofun rfl rfl rfl)
  | receive a i a' mailbox ha hscript hmail =>
      have hquiet : accepts a = none := by
        rcases ha with ⟨rfl, -⟩ | ⟨rfl, -⟩ | ⟨rfl, -⟩ <;> rfl
      have hne : a' ≠ .syncGet := by
        rcases ha with ⟨-, rfl⟩ | ⟨-, rfl⟩ | ⟨-, rfl⟩ <;> exact nofun
      exact .of_quiet hquiet (hs.mail hmail hne rfl rfl rfl)
  | syncGet i j msg mailbox hmail hin => exact .of_quiet rfl (hs.syncGet hmail hin)
  | onEvent i clientFd hscript hloop hreactor =>
      cases i with
      | none => exact hs.onAccept clientFd
      | some i =>
          refine .of_quiet rfl (Turns.handle hs ?_)
          rfl

theorem turns_of_run [NeZero n] {size : ℕ} {buff : ℕ → Option (Fin n) × Message}
    {as : List (TaskNetwork.Action (Option (Fin n)) ℕ)}
    (hrun : run (TaskNetwork.step (tasks n)) (TaskNetwork.start (tasks n) size buff) as = some s) :
    Turns (acceptedFds as) s := by
  induction as using List.reverseRecOn generalizing s with
  | nil => exact Option.some.inj hrun ▸ turns_start size buff
  | append_singleton as a ih =>
      obtain ⟨t, ht, hstep⟩ := run_concat_eq_some.mp hrun
      have hfds : acceptedFds (as ++ [a]) = acceptedFds as ++ (accepts a).toList := by
        rw [acceptedFds, List.filterMap_append]
        cases ha : accepts a <;> simp [acceptedFds, ha]
      rw [hfds]
      exact (ih ht).step hstep

theorem map_snd_eq_labelled {l : List (Option (Fin n) × Message)}
    (hno : ∀ j : Fin n, labelled (some j) l = []) : l.map Prod.snd = labelled none l := by
  induction l with
  | nil => rfl
  | cons p l ih =>
      obtain ⟨_ | j, msg⟩ := p
      · rw [List.map_cons, labelled_cons, if_pos rfl, List.singleton_append]
        exact congrArg _ (ih fun j => by simpa [labelled_cons] using hno j)
      · have hj := hno j
        rw [labelled_cons, if_pos rfl] at hj
        cases hj

theorem newConnects_map (fds : List ℕ) : newConnects (fds.map .newConnect) = fds := by
  induction fds with
  | nil => rfl
  | cons fd fds ih => exact congrArg (fd :: ·) ih

theorem Turns.served (hs : Turns fds s)
    (hall : ∀ i j, labelled i (s.mailbox j).handledLog = labelled j (s.asked i)) (i : Fin n) :
    s.members (some i) = .workService (share n i fds) := by
  have hothers : ∀ j : Fin n, labelled (some j) (s.mailbox (some i)).handledLog = [] := by
    intro j
    rw [hall, hs.silent j, labelled_nil]
  rw [hs.streams i, map_snd_eq_labelled hothers, hall, hs.asked i, newConnects_map]

theorem acceptedFds_quiet {t : Network (Option (Fin n)) Message Members}
    {bs : List (TaskNetwork.Action (Option (Fin n)) ℕ)}
    (hrun : run (quietStep (tasks n)) t bs = some u) : acceptedFds bs = [] := by
  induction bs generalizing t with
  | nil => rfl
  | cons a bs ih =>
      obtain ⟨v, hv, hrest⟩ := run_cons_eq_some.mp hrun
      have hquiet : accepts a = none := by
        cases a with
        | onEvent i clientFd => cases (quietStep_eq_some.mp hv).1
        | _ => rfl
      rw [acceptedFds, List.filterMap_cons_none hquiet]
      exact ih hrest

/-- However many services there are, whatever room the mailboxes have and however the
threads take turns: once no more connections come in, the tasks stop after finitely many
steps, and when they have, the service whose turn it was has made a stream for every fd
that the listener had handed over, in the order of accepting. -/
theorem every_connection_served [NeZero n] {size : ℕ} (hsize : 2 ≤ size)
    {buff : ℕ → Option (Fin n) × Message} {as : List (TaskNetwork.Action (Option (Fin n)) ℕ)}
    (hrun : run (TaskNetwork.step (tasks n)) (TaskNetwork.start (tasks n) size buff) as = some s) :
    (∀ f : ℕ → Network (Option (Fin n)) Message Members, f 0 = s →
      ∃ k, ∀ a, a.isEvent = false →
        TaskNetwork.step (tasks n) (f k) a ≠ some (f (k + 1))) ∧
    (∃ bs u, run (quietStep (tasks n)) s bs = some u ∧ AtRest (tasks n) u) ∧
    ∀ bs u, run (quietStep (tasks n)) s bs = some u → AtRest (tasks n) u →
      ∀ i : Fin n, u.members (some i) = .workService (share n i (acceptedFds as)) := by
  obtain ⟨hfinite, hends, -⟩ := drains tasks_ranked hsize hrun
  refine ⟨hfinite, hends, fun bs u hquiet hrest i => ?_⟩
  have hrun' : run (TaskNetwork.step (tasks n)) (TaskNetwork.start (tasks n) size buff)
      (as ++ bs) = some u := by
    rw [run_append, hrun]
    exact run_mono (fun _ _ _ h => (quietStep_eq_some.mp h).2) hquiet
  have hfds : acceptedFds (as ++ bs) = acceptedFds as := by
    rw [acceptedFds, List.filterMap_append]
    exact (congrArg (_ ++ ·) (acceptedFds_quiet hquiet)).trans (List.append_nil _)
  have hturns := turns_of_run hrun'
  rw [hfds] at hturns
  exact hturns.served ((drains tasks_ranked hsize hrun').2.2 hrest).2 i

/-- The third fd comes in while the message for the first is in the mailbox. -/
def threeFds : List (TaskNetwork.Action (Option (Fin 2)) ℕ) :=
  [.onEvent none 5, .notifyMsg none, .syncPut none, .write none,
    .onEvent none 6, .notifyMsg none, .syncPut none, .write none, .onEvent none 7]

theorem every_connection_served_threeFds :
    ∃ s bs u, run (TaskNetwork.step (tasks 2))
        (TaskNetwork.start (tasks 2) 2 fun _ => (none, .other)) threeFds = some s ∧
      run (quietStep (tasks 2)) s bs = some u ∧
      u.members (some 0) = .workService [6] ∧ u.members (some 1) = .workService [5, 7] := by
  have hrun : run (TaskNetwork.step (tasks 2))
      (TaskNetwork.start (tasks 2) 2 fun _ => (none, .other)) threeFds = some _ := rfl
  obtain ⟨-, ⟨bs, u, hquiet, hrest⟩, hserved⟩ := every_connection_served (by decide) hrun
  exact ⟨_, bs, u, rfl, hquiet, hserved bs u hquiet hrest 0, hserved bs u hquiet hrest 1⟩

end Banana.NetAcceptService
