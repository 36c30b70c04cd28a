import Banana.Library.RoundRobin
import Banana.Network.TcpServer

/-!
# Which service gets a connection

`__onAccept` of `network/NetAcceptService.cpp` advances `curServiceIndex_` and
puts a `NewConnectMessage` into the mailbox of that service.  The services run
on threads of their own; `onMessage` makes a `Stream` for each fd in the order
of the mailbox.  Nobody else makes a `NewConnectMessage`, but any thread may
send the services other messages at any time.

The sender `some none` of a mailbox is the thread of the accept service.
-/

namespace Banana.NetAcceptService

open InteractiveTask RoundRobin Transition

variable {n : ℕ} {τ : Type*}

abbrev Message := TcpServer.Message

def clientFd : Message → Option ℕ
  | .newConnect clientFd => some clientFd
  | _ => none

/-- `accepting` is the service in whose `notifyMsg` the accept service is. -/
structure State (n : ℕ) (τ : Type*) where
  curServiceIndex : ℕ
  accepting : Option (Fin n)
  vecSpWorkService : Fin n → Mailbox Message (Option τ)

inductive Action (n : ℕ) (τ : Type*)
  | onAccept (clientFd : ℕ)
  | acceptPut
  | acceptWrite
  | mail (i : Fin n) (a : InteractiveTask.Action Message (Option τ))

def start (buff : ℕ → Message) : State n τ where
  curServiceIndex := 0
  accepting := none
  vecSpWorkService := fun _ => InteractiveTask.start true 50000 buff

def nextServiceIndex (size curServiceIndex : ℕ) : ℕ :=
  if curServiceIndex + 1 = size then 0 else curServiceIndex + 1

/-- A step of another thread on a mailbox. -/
def mayMail : InteractiveTask.Action Message (Option τ) → Bool
  | .notifyMsg (some none) _ => false
  | .syncPut (some none) => false
  | .write (some none) => false
  | .notifyMsg _ msg => (clientFd msg).isNone
  | _ => true

section Steps

variable [DecidableEq τ]

def act (s : State n τ) (i : Fin n) (a : InteractiveTask.Action Message (Option τ)) :
    Option (State n τ) :=
  (InteractiveTask.step (s.vecSpWorkService i) a).map fun mailbox =>
    { s with vecSpWorkService := Function.update s.vecSpWorkService i mailbox }

def step (s : State n τ) : Action n τ → Option (State n τ)
  | .onAccept clientFd =>
      if s.accepting = none then
        if hlt : nextServiceIndex n s.curServiceIndex < n then
          (act s ⟨nextServiceIndex n s.curServiceIndex, hlt⟩
              (.notifyMsg (some none) (.newConnect clientFd))).map fun u =>
            { u with
              curServiceIndex := nextServiceIndex n s.curServiceIndex
              accepting := some ⟨nextServiceIndex n s.curServiceIndex, hlt⟩ }
        else none
      else none
  | .acceptPut => s.accepting.bind fun i => act s i (.syncPut (some none))
  | .acceptWrite =>
      s.accepting.bind fun i =>
        (act s i (.write (some none))).map fun u => { u with accepting := none }
  | .mail i a =>
      if mayMail a = true ∧
          TcpServer.onMessageReturns (some i) (s.vecSpWorkService i).receiver = true then
        act s i a
      else none

end Steps

/-- The fds of the messages. -/
def newConnects (msgs : List Message) : List ℕ := msgs.filterMap clientFd

/-- The fds for which `onMessage` has made a `Stream`, in order. -/
def streams (s : State n τ) (i : Fin n) : List ℕ :=
  newConnects (s.vecSpWorkService i).handledLog

def queued (s : State n τ) (i : Fin n) : List ℕ :=
  newConnects (s.vecSpWorkService i).recvMsgQueue.elements

/-- The fd of a message on its way into the queue. -/
def pending : SenderPc Message → List ℕ
  | .atSyncPut msg => (clientFd msg).toList
  | _ => []

@[simp] theorem pending_idle : pending .idle = [] := rfl

@[simp] theorem pending_atWrite : pending .atWrite = [] := rfl

@[simp] theorem pending_atSyncPut (msg : Message) :
    pending (.atSyncPut msg) = (clientFd msg).toList := rfl

def inFlight (s : State n τ) (i : Fin n) : List ℕ :=
  pending ((s.vecSpWorkService i).sender (some none))

def Action.accepted : Action n τ → Option ℕ
  | .onAccept clientFd => some clientFd
  | _ => none

/-- The fds given to `__onAccept`, in order. -/
def accepted (as : List (Action n τ)) : List ℕ := as.filterMap Action.accepted

/-! ## One mailbox -/

section Mailbox

/-- What the accept service has sent to a mailbox, in the queue or on its way. -/
def offered (m : Mailbox Message (Option τ)) : List ℕ :=
  newConnects m.putLog ++ pending (m.sender (some none))

/-- Only the accept service is sending a `NewConnectMessage`. -/
def Quiet (m : Mailbox Message (Option τ)) : Prop :=
  ∀ t, t ≠ some none → pending (m.sender t) = []

def gained : InteractiveTask.Action Message (Option τ) → List ℕ
  | .notifyMsg (some none) msg => (clientFd msg).toList
  | _ => []

/-- A `NewConnectMessage` is sent by the accept service only. -/
def Sent (a : InteractiveTask.Action Message (Option τ)) : Prop :=
  ∀ t msg, a = .notifyMsg t msg → t = some none ∨ clientFd msg = none

theorem newConnects_concat (msgs : List Message) (msg : Message) :
    newConnects (msgs ++ [msg]) = newConnects msgs ++ (clientFd msg).toList := by
  rw [newConnects, List.filterMap_append]
  cases hfd : clientFd msg <;> simp [newConnects, hfd]

theorem sent_of_mayMail {a : InteractiveTask.Action Message (Option τ)}
    (hmay : mayMail a = true) : Sent a := by
  rintro t msg rfl
  rcases t with _ | _ | t
  · exact .inr (by simpa [mayMail] using hmay)
  · exact .inl rfl
  · exact .inr (by simpa [mayMail] using hmay)

theorem gained_of_mayMail {a : InteractiveTask.Action Message (Option τ)}
    (hmay : mayMail a = true) : gained a = [] := by
  cases a with
  | notifyMsg t msg =>
      rcases t with _ | _ | t
      · rfl
      · simp [mayMail] at hmay
      · rfl
  | _ => rfl

variable [DecidableEq τ]

theorem pending_update_of_ne {m : Mailbox Message (Option τ)} {t t' : Option (Option τ)}
    {pc : SenderPc Message} (hpc : pending pc = pending (m.sender t)) :
    pending (Function.update m.sender t pc t') = pending (m.sender t') := by
  by_cases ht : t' = t
  · subst t'
    rw [Function.update_self, hpc]
  · rw [Function.update_of_ne ht]

theorem offered_step {m m' : Mailbox Message (Option τ)}
    {a : InteractiveTask.Action Message (Option τ)} (hquiet : Quiet m) (hsent : Sent a)
    (h : InteractiveTask.step m a = some m') :
    offered m' = offered m ++ gained a ∧ Quiet m' := by
  cases moves_of_step h with
  | notifyMsg t msg hidle hmay =>
      rcases hsent t msg rfl with rfl | hnone
      · refine ⟨?_, fun t' ht' => ?_⟩
        · simp [offered, gained, hidle]
        · change pending (Function.update m.sender (some none) _ t') = []
          rw [Function.update_of_ne ht']
          exact hquiet t' ht'
      · have hsame : ∀ t', pending (Function.update m.sender t (.atSyncPut msg) t') =
            pending (m.sender t') := by
          intro t'
          exact pending_update_of_ne (by rw [pending_atSyncPut, hnone, hidle]; rfl)
        have hgained : gained (.notifyMsg t msg) = [] := by
          rcases t with _ | _ | t
          · rfl
          · rw [gained, hnone, Option.toList_none]
          · rfl
        refine ⟨?_, fun t' ht' => (hsame t').trans (hquiet t' ht')⟩
        rw [hgained, List.append_nil]
        exact congrArg (newConnects m.putLog ++ ·) (hsame (some none))
  | syncPut t msg hat hroom =>
      by_cases ht : t = some none
      · subst t
        refine ⟨?_, fun t' ht' => ?_⟩
        · simp [offered, gained, hat, newConnects_concat]
        · change pending (Function.update m.sender (some none) _ t') = []
          rw [Function.update_of_ne ht']
          exact hquiet t' ht'
      · have hnone := hquiet t ht
        have hsame : ∀ t', pending (Function.update m.sender t .atWrite t') =
            pending (m.sender t') := fun t' => pending_update_of_ne hnone.symm
        rw [hat, pending_atSyncPut] at hnone
        refine ⟨?_, fun t' ht' => (hsame t').trans (hquiet t' ht')⟩
        change newConnects (m.putLog ++ [msg]) ++
          pending (Function.update m.sender t .atWrite (some none)) = offered m ++ []
        rw [newConnects_concat, hnone, List.append_nil, hsame, List.append_nil, offered]
  | write t hat =>
      have hsame : ∀ t', pending (Function.update m.sender t .idle t') =
          pending (m.sender t') := by
        intro t'
        exact pending_update_of_ne (by rw [hat]; rfl)
      refine ⟨?_, fun t' ht' => (hsame t').trans (hquiet t' ht')⟩
      change newConnects m.putLog ++ pending (Function.update m.sender t .idle (some none)) =
        offered m ++ []
      rw [hsame, List.append_nil, offered]
  | fire => exact ⟨(List.append_nil _).symm, hquiet⟩
  | read => exact ⟨(List.append_nil _).symm, hquiet⟩
  | syncGet => exact ⟨(List.append_nil _).symm, hquiet⟩
  | finish => exact ⟨(List.append_nil _).symm, hquiet⟩

end Mailbox

/-! ## Whose turn it is -/

variable [Fintype τ]

/-- The accept service has sent the fds of `given` to the mailbox. -/
structure Given (given : List ℕ) (m : Mailbox Message (Option τ)) : Prop where
  inv : InteractiveTask.Inv m
  quiet : Quiet m
  offered : offered m = given

/-- The invariant after the fds of `fds` were accepted. -/
structure Inv (fds : List ℕ) (s : State n τ) : Prop where
  index : s.curServiceIndex = fds.length % n
  given : ∀ i : Fin n, Given (share n i fds) (s.vecSpWorkService i)
  idle : ∀ i, s.accepting ≠ some i → (s.vecSpWorkService i).sender (some none) = .idle

theorem inv_start (buff : ℕ → Message) : Inv [] (start buff : State n τ) where
  index := (Nat.zero_mod n).symm
  given _ := ⟨InteractiveTask.inv_start true (by decide) buff, fun _ _ => rfl, rfl⟩
  idle _ _ := rfl

theorem nextServiceIndex_eq {cur : ℕ} (hlt : cur < n) :
    nextServiceIndex n cur = (cur + 1) % n := (CyclicIndex.next_eq hlt).symm

theorem Inv.next [NeZero n] {fds : List ℕ} {s : State n τ} (hs : Inv fds s) :
    nextServiceIndex n s.curServiceIndex = (fds.length + 1) % n := by
  rw [hs.index, nextServiceIndex_eq (Nat.mod_lt _ (NeZero.pos n)), Nat.mod_add_mod]

variable [DecidableEq τ]

theorem Given.step {given : List ℕ} {m m' : Mailbox Message (Option τ)}
    {a : InteractiveTask.Action Message (Option τ)} (hm : Given given m) (hsent : Sent a)
    (h : InteractiveTask.step m a = some m') : Given (given ++ gained a) m' := by
  obtain ⟨hoffered, hquiet⟩ := offered_step hm.quiet hsent h
  exact ⟨hm.inv.step h, hquiet, by rw [hoffered, hm.offered]⟩

/-- A step on one mailbox that sends no new fd. -/
theorem Inv.given_update {fds : List ℕ} {s : State n τ} (hs : Inv fds s) {i : Fin n}
    {a : InteractiveTask.Action Message (Option τ)} {mailbox : Mailbox Message (Option τ)}
    (h : InteractiveTask.step (s.vecSpWorkService i) a = some mailbox) (hsent : Sent a)
    (hgained : gained a = []) (j : Fin n) :
    Given (share n j fds) (Function.update s.vecSpWorkService i mailbox j) := by
  by_cases hj : j = i
  · subst j
    rw [Function.update_self, ← List.append_nil (share n i fds), ← hgained]
    exact (hs.given i).step hsent h
  · rw [Function.update_of_ne hj]
    exact hs.given j

theorem Inv.onAccept [NeZero n] {fds : List ℕ} {s : State n τ} (hs : Inv fds s) {fd : ℕ}
    {i : Fin n} (hi : i.val = (fds.length + 1) % n) (hnone : s.accepting = none)
    {mailbox : Mailbox Message (Option τ)}
    (h : InteractiveTask.step (s.vecSpWorkService i) (.notifyMsg (some none) (.newConnect fd)) =
      some mailbox) :
    Inv (fds ++ [fd])
      ⟨i, some i, Function.update s.vecSpWorkService i mailbox⟩ := by
  have hsent : Sent (.notifyMsg (some none) (.newConnect fd) :
      InteractiveTask.Action Message (Option τ)) := by
    rintro t msg heq
    exact .inl (InteractiveTask.Action.notifyMsg.inj heq).1.symm
  refine ⟨?_, fun j => ?_, fun j hj => ?_⟩
  · rw [List.length_append, List.length_singleton]
    exact hi
  · rw [share_concat, ← hi]
    by_cases hj : j = i
    · subst j
      rw [if_pos rfl]
      change Given _ (Function.update s.vecSpWorkService i mailbox i)
      rw [Function.update_self]
      exact (hs.given i).step hsent h
    · have hne : ¬ i.val = j.val := fun heq => hj (Fin.ext heq.symm)
      rw [if_neg hne, List.append_nil]
      change Given _ (Function.update s.vecSpWorkService i mailbox j)
      rw [Function.update_of_ne hj]
      exact hs.given j
  · have hne : j ≠ i := fun heq => hj (congrArg some heq.symm)
    change (Function.update s.vecSpWorkService i mailbox j).sender (some none) = .idle
    rw [Function.update_of_ne hne]
    exact hs.idle j (by rw [hnone]; exact nofun)

/-- The accept service goes on with the message it is sending. -/
theorem Inv.accepting {fds : List ℕ} {s : State n τ} (hs : Inv fds s) {i : Fin n}
    (hat : s.accepting = some i) {a : InteractiveTask.Action Message (Option τ)}
    {mailbox : Mailbox Message (Option τ)}
    (h : InteractiveTask.step (s.vecSpWorkService i) a = some mailbox) (hsent : Sent a)
    (hgained : gained a = []) {accepting : Option (Fin n)}
    (hdone : accepting ≠ some i → mailbox.sender (some none) = .idle) :
    Inv fds ⟨s.curServiceIndex, accepting, Function.update s.vecSpWorkService i mailbox⟩ := by
  refine ⟨hs.index, hs.given_update h hsent hgained, fun j hj => ?_⟩
  change (Function.update s.vecSpWorkService i mailbox j).sender (some none) = .idle
  by_cases hji : j = i
  · subst j
    rw [Function.update_self]
    exact hdone hj
  · rw [Function.update_of_ne hji]
    exact hs.idle j (by rw [hat]; exact fun heq => hji (Option.some.inj heq).symm)

theorem Inv.step [NeZero n] {fds : List ℕ} {s u : State n τ} {a : Action n τ}
    (hs : Inv fds s) (h : NetAcceptService.step s a = some u) :
    Inv (fds ++ a.accepted.toList) u := by
  cases a with
  | onAccept fd =>
      simp only [NetAcceptService.step, Option.ite_none_right_eq_some] at h
      obtain ⟨hnone, h⟩ := h
      split_ifs at h with hlt
      obtain ⟨v, hact, rfl⟩ := Option.map_eq_some_iff.mp h
      obtain ⟨mailbox, hstep, rfl⟩ := Option.map_eq_some_iff.mp hact
      exact hs.onAccept hs.next hnone hstep
  | acceptPut =>
      obtain ⟨i, hat, hact⟩ := Option.bind_eq_some_iff.mp h
      obtain ⟨mailbox, hstep, rfl⟩ := Option.map_eq_some_iff.mp hact
      change Inv (fds ++ []) _
      rw [List.append_nil]
      exact hs.accepting hat hstep nofun rfl fun hne => absurd hat hne
  | acceptWrite =>
      obtain ⟨i, hat, hwrite⟩ := Option.bind_eq_some_iff.mp h
      obtain ⟨v, hact, rfl⟩ := Option.map_eq_some_iff.mp hwrite
      obtain ⟨mailbox, hstep, rfl⟩ := Option.map_eq_some_iff.mp hact
      change Inv (fds ++ []) _
      rw [List.append_nil]
      refine hs.accepting hat hstep nofun rfl fun _ => ?_
      cases moves_of_step hstep with
      | write t hwriting => simp
  | mail i b =>
      simp only [NetAcceptService.step, Option.ite_none_right_eq_some] at h
      obtain ⟨⟨hmay, -⟩, hact⟩ := h
      obtain ⟨mailbox, hstep, rfl⟩ := Option.map_eq_some_iff.mp hact
      change Inv (fds ++ []) _
      rw [List.append_nil]
      refine ⟨hs.index, hs.given_update hstep (sent_of_mayMail hmay) (gained_of_mayMail hmay),
        fun j hj => ?_⟩
      change (Function.update s.vecSpWorkService i mailbox j).sender (some none) = .idle
      by_cases hji : j = i
      · subst j
        rw [Function.update_self]
        apply (moves_of_step hstep).idle_of_idle (hs.idle i hj)
        rintro msg rfl
        simp [mayMail] at hmay
      · rw [Function.update_of_ne hji]
        exact hs.idle j hj

theorem inv_of_run [NeZero n] {buff : ℕ → Message} {as : List (Action n τ)} {s : State n τ}
    (hrun : run NetAcceptService.step (start buff) as = some s) : Inv (accepted as) s := by
  induction as using List.reverseRecOn generalizing s with
  | nil => exact Option.some.inj hrun ▸ inv_start buff
  | append_singleton as a ih =>
      obtain ⟨t, ht, hstep⟩ := run_concat_eq_some.mp hrun
      have hnext := (ih ht).step hstep
      have hfds : accepted (as ++ [a]) = accepted as ++ a.accepted.toList := by
        rw [accepted, List.filterMap_append]
        cases ha : a.accepted <;> simp [accepted, ha]
      rwa [hfds]

/-- The `k`-th fd goes to the service `k % n`, once and to no other; no service
gets two more than another; and each makes its streams in the order in which the
fds were accepted. -/
theorem dispatches_in_turn [NeZero n] (buff : ℕ → Message) {as : List (Action n τ)}
    {s : State n τ} (hrun : run NetAcceptService.step (start buff) as = some s) :
    nextServiceIndex n s.curServiceIndex < n ∧
      s.curServiceIndex = (accepted as).length % n ∧
      (∀ i : Fin n, newConnects (s.vecSpWorkService i).putLog ++ inFlight s i =
        share n i (accepted as)) ∧
      (s.accepting = none → ∀ i : Fin n,
        newConnects (s.vecSpWorkService i).putLog = share n i (accepted as)) ∧
      (∀ i j : Fin n,
        (share n i (accepted as)).length ≤ (share n j (accepted as)).length + 1) ∧
      ∀ i : Fin n, streams s i ++ queued s i ++ inFlight s i = share n i (accepted as) := by
  have hs := inv_of_run hrun
  have hpos := NeZero.pos n
  refine ⟨?_, hs.index, fun i => (hs.given i).offered, fun hnone i => ?_,
    fun i j => length_share_le hpos i.isLt j.isLt _, fun i => ?_⟩
  · rw [hs.next]
    exact Nat.mod_lt _ hpos
  · have hoffered := (hs.given i).offered
    rwa [offered, hs.idle i (by rw [hnone]; exact nofun), pending_idle, List.append_nil]
      at hoffered
  · have hoffered := (hs.given i).offered
    rw [offered, (hs.given i).inv.delivery, newConnects, List.filterMap_append] at hoffered
    exact hoffered

/-- Three connections for two services, while a map task sends a message. -/
def threeAccepts : List (Action 2 (Fin 1)) :=
  List.flatten [[.onAccept 5, .acceptPut, .acceptWrite],
    [.mail 1 (.notifyMsg (some (some 0)) (.connection 9)), .mail 1 .fire],
    [.onAccept 6, .acceptPut, .mail 1 (.syncPut (some (some 0))), .acceptWrite],
    [.mail 1 .read, .mail 1 .syncGet, .onAccept 7]]

theorem dispatches_in_turn_threeAccepts :
    ∃ s : State 2 (Fin 1), run NetAcceptService.step (start fun _ => .other) threeAccepts = some s ∧
      streams s 1 = [5] ∧ inFlight s 1 = [7] ∧
      streams s 1 ++ queued s 1 ++ inFlight s 1 = share 2 1 [5, 6, 7] := by
  obtain ⟨s, hrun, hs⟩ : ∃ s : State 2 (Fin 1),
      run NetAcceptService.step (start fun _ => .other) threeAccepts = some s ∧
        streams s 1 = [5] ∧ inFlight s 1 = [7] := ⟨_, rfl, rfl, rfl⟩
  obtain ⟨-, -, -, -, -, hall⟩ := dispatches_in_turn (fun _ => .other) hrun
  exact ⟨s, hrun, hs.1, hs.2, hall 1⟩

end Banana.NetAcceptService
