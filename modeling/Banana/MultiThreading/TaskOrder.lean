import Banana.MultiThreading.TaskNetwork

/-!
# Tasks that send downwards

In a program whose tasks can be ranked, so that a handler sends to tasks of lower rank
only, nobody is ever stuck for good: whatever the capacity of the mailboxes, the number
of messages a handler sends and the order of the steps, everything sent is handled.
`NetAcceptService`, which sends to the work services, is such a program.
-/

namespace Banana.TaskNetwork

open InteractiveTask Transition

variable {κ M E L : Type*} {b : Behaviour κ M E L} {rank : κ → ℕ}

structure Ranked (b : Behaviour κ M E L) (rank : κ → ℕ) : Prop where
  onStart : ∀ i, ∀ p ∈ (b.onStart i).2, rank p.1 < rank i
  onMessage : ∀ i members msg, ∀ p ∈ (b.onMessage i members msg).2, rank p.1 < rank i
  onEvent : ∀ i members e, ∀ p ∈ (b.onEvent i members e).2, rank p.1 < rank i

def SendsDown (rank : κ → ℕ) (s : Network κ M L) : Prop :=
  ∀ i, ∀ p ∈ s.script i, rank p.1 < rank i

variable {s u : Network κ M L} [DecidableEq κ]

theorem SendsDown.handle (hs : SendsDown rank s) {i : κ} {out : L × List (κ × M)}
    (hout : ∀ p ∈ out.2, rank p.1 < rank i) : SendsDown rank (handle s i out) := by
  intro k p hp
  change p ∈ Function.update s.script i out.2 k at hp
  by_cases hk : k = i
  · subst hk
    rw [Function.update_self] at hp
    exact hout p hp
  · rw [Function.update_of_ne hk] at hp
    exact hs k p hp

theorem SendsDown.step (hb : Ranked b rank) (hs : SendsDown rank s) {a : Action κ E}
    (h : TaskNetwork.step b s a = some u) : SendsDown rank u := by
  cases moves_of_step h with
  | notifyMsg => exact hs
  | syncPut => exact hs
  | receive => exact hs
  | write i j msg rest mailbox hscript hmail =>
      intro k p hp
      change p ∈ Function.update s.script i rest k at hp
      by_cases hk : k = i
      · subst hk
        rw [Function.update_self] at hp
        refine hs k p ?_
        rw [hscript]
        exact List.mem_cons_of_mem _ hp
      · rw [Function.update_of_ne hk] at hp
        exact hs k p hp
  | syncGet i j msg mailbox hmail hin => exact SendsDown.handle hs (hb.onMessage i _ msg)
  | onEvent i e hscript hloop hreactor => exact SendsDown.handle hs (hb.onEvent i _ e)

variable [Fintype κ] {size : ℕ}

theorem Inv.rank_lt_of_waits (hs : Inv b size s) (hdown : SendsDown rank s) {i j : κ}
    (hw : WaitsFor s i j) : rank j < rank i := by
  obtain ⟨msg, rest, hscript⟩ := hs.script_of_waits hw
  refine hdown i (j, msg) ?_
  rw [hscript]
  exact List.mem_cons_self

/-! ## The work that is left

A message costs 8 while it is in a script.  `syncPut` leaves a part of it to the queue
and a part to the `write` of the sender. -/

def senderCost : SenderPc (κ × M) → ℕ
  | .idle => 1
  | .atSyncPut _ => 0
  | .atWrite => 2

def receiverCost : ReceiverPc (κ × M) → ℕ
  | .inLoop => 2
  | .atRead => 1
  | .atSyncGet _ => 0
  | .inOnMessage _ => 3

def mailCost (m : Mailbox (κ × M) κ) : ℕ :=
  Threads.total senderCost m.sender + 4 * m.recvMsgQueue.elements.length +
    receiverCost m.receiver

/-- The messages for `k` that are not yet in its queue. -/
def toPut (s : Network κ M L) (k : κ) : ℕ :=
  Threads.total (fun l => (labelled k l).length) (unput s)

def work (s : Network κ M L) (k : κ) : ℕ := 8 * toPut s k + mailCost (s.mailbox k)

/-- What a step of a mailbox may add. -/
def putCost : InteractiveTask.Action (κ × M) κ → ℕ
  | .syncPut _ => 7
  | _ => 0

omit [Fintype κ] [DecidableEq κ] in
theorem putCost_of_receives {a : InteractiveTask.Action (κ × M) κ} (ha : Receives a) :
    putCost a = 0 := by
  cases a with
  | syncPut t => exact ha.elim
  | _ => rfl

theorem mailCost_step {m m' : Mailbox (κ × M) κ} {a : InteractiveTask.Action (κ × M) κ}
    (hm : InteractiveTask.Inv m) (h : InteractiveTask.step m a = some m') :
    mailCost m' + 1 ≤ mailCost m + putCost a := by
  cases InteractiveTask.moves_of_step h with
  | notifyMsg t msg hidle hmay =>
      have hsum := Threads.total_update senderCost m.sender t (.atSyncPut msg)
      rw [hidle] at hsum
      simp only [mailCost, putCost, senderCost] at hsum ⊢
      omega
  | syncPut t msg hat hroom =>
      have hsum := Threads.total_update senderCost m.sender t .atWrite
      have hlength := congrArg List.length (hm.valid.elements_push msg hroom)
      rw [hat] at hsum
      rw [List.length_append, List.length_singleton] at hlength
      simp only [mailCost, putCost, senderCost] at hsum ⊢
      omega
  | write t hat =>
      have hsum := Threads.total_update senderCost m.sender t .idle
      rw [hat] at hsum
      simp only [mailCost, putCost, senderCost] at hsum ⊢
      omega
  | fire hloop hidle harmed hpos =>
      simp only [mailCost, putCost, hloop, receiverCost]
      omega
  | read v e hat hidle hread =>
      rcases hat with hat | ⟨hat, -⟩
      · simp only [mailCost, putCost, hat, receiverCost]
        omega
      · simp only [mailCost, putCost, hat, receiverCost]
        omega
  | syncGet hat hsome =>
      have hlength := congrArg List.length (hm.valid.elements_pop hsome)
      rw [List.length_cons] at hlength
      simp only [mailCost, putCost, hat, receiverCost]
      omega
  | finish msg hat hidle =>
      simp only [mailCost, putCost, hat, receiverCost]
      omega

theorem toPut_congr (hunput : ∀ i, unput u i = unput s i) (k : κ) : toPut u k = toPut s k := by
  rw [toPut, toPut, funext hunput]

/-- One thread has put its next message, or has some more to send. -/
theorem toPut_add {i : κ} (hunput : ∀ i', i' ≠ i → unput u i' = unput s i') (k : κ) :
    toPut u k + (labelled k (unput s i)).length =
      toPut s k + (labelled k (unput u i)).length := by
  have hupdate : unput u = Function.update (unput s) i (unput u i) := by
    funext i'
    by_cases hi : i' = i
    · subst hi
      rw [Function.update_self]
    · rw [Function.update_of_ne hi, hunput i' hi]
  rw [toPut, hupdate, Function.update_self]
  exact Threads.total_update _ _ _ _

omit [Fintype κ] in
theorem labelled_eq_nil {k : κ} {l : List (κ × M)} (hno : ∀ p ∈ l, p.1 ≠ k) :
    labelled k l = [] := by
  rw [labelled, List.filterMap_eq_nil_iff]
  exact fun p hp => if_neg (hno p hp)

theorem mailCost_update {j : κ} {m : Mailbox (κ × M) κ} (k : κ) (hk : k ≠ j) :
    mailCost (Function.update s.mailbox j m k) = mailCost (s.mailbox k) := by
  rw [Function.update_of_ne hk]

theorem Inv.toPut_handle (hs : Inv b size s) {i : κ} (hscript : s.script i = [])
    {out : L × List (κ × M)} {k : κ} (hout : ∀ p ∈ out.2, p.1 ≠ k) :
    toPut (TaskNetwork.handle s i out) k = toPut s k := by
  have hadd := toPut_add (unput_handle_of_ne (s := s) (i := i) out) k
  rwa [hs.unput_handle hscript, labelled_eq_nil hout, unput_of_idle (hs.idle_of_nil hscript),
    hscript] at hadd

/-- A step on the mailbox of `j` after which the threads have as much to put. -/
theorem descends_of_mail (hs : Inv b size s) {j : κ} {a : InteractiveTask.Action (κ × M) κ}
    {mailbox : Mailbox (κ × M) κ} (hmail : InteractiveTask.step (s.mailbox j) a = some mailbox)
    (ha : putCost a = 0) (hmailbox : u.mailbox = Function.update s.mailbox j mailbox)
    (htoPut : ∀ k, rank j ≤ rank k → toPut u k = toPut s k) :
    Progress.Descends rank (work u) (work s) := by
  have hcost := mailCost_step (hs.mailbox j) hmail
  have hself : mailCost (u.mailbox j) = mailCost mailbox := by
    rw [hmailbox, Function.update_self]
  refine ⟨j, ?_, fun k hk => ?_⟩
  · rw [work, work, htoPut j le_rfl, hself]
    omega
  · by_cases hkj : k = j
    · subst hkj
      rw [work, work, htoPut k le_rfl, hself]
      omega
    · rw [work, work, htoPut k hk, hmailbox, mailCost_update k hkj]

/-- A step that is not an event does work at one task, and adds some below it only. -/
theorem Inv.descends (hb : Ranked b rank) (hs : Inv b size s) {a : Action κ E}
    (ha : a.isEvent = false) (h : TaskNetwork.step b s a = some u) :
    Progress.Descends rank (work u) (work s) := by
  cases moves_of_step h with
  | notifyMsg i j msg rest mailbox hscript hmail =>
      exact descends_of_mail hs hmail rfl rfl fun k _ =>
        toPut_congr (unput_notifyMsg hscript hmail) k
  | write i j msg rest mailbox hscript hmail =>
      exact descends_of_mail hs hmail rfl rfl fun k _ =>
        toPut_congr (hs.unput_write hscript hmail) k
  | syncPut i j msg rest mailbox hscript hmail =>
      obtain ⟨-, hunput⟩ := hs.unput_syncPut hscript hmail
      obtain ⟨-, -, hsender, -, -⟩ := syncPut_spec hmail
      have hcost := mailCost_step (hs.mailbox j) hmail
      have hadd := toPut_add (u := { s with mailbox := Function.update s.mailbox j mailbox })
        (s := s) (i := i) fun i' hi =>
          unput_of_ne (u := { s with mailbox := Function.update s.mailbox j mailbox }) hsender rfl
            (Function.update_eq_self i s.script).symm hi
      have hself : toPut { s with mailbox := Function.update s.mailbox j mailbox } j + 1 =
          toPut s j := by
        have hj := hadd j
        rw [hunput, labelled_cons, if_pos rfl, List.length_append, List.length_singleton] at hj
        omega
      have hmailbox : mailCost (Function.update s.mailbox j mailbox j) = mailCost mailbox := by
        rw [Function.update_self]
      rw [putCost] at hcost
      refine ⟨j, ?_, fun k _ => ?_⟩
      · simp only [work, hmailbox]
        omega
      · by_cases hk : k = j
        · subst hk
          simp only [work, hmailbox]
          omega
        · have hle := hadd k
          rw [hunput, labelled_cons, if_neg (Ne.symm hk), List.nil_append] at hle
          simp only [work, mailCost_update k hk]
          omega
  | receive a i a' mailbox ha' hscript hmail =>
      have hreceives : Receives a' := by
        rcases ha' with ⟨-, rfl⟩ | ⟨-, rfl⟩ | ⟨-, rfl⟩ <;> trivial
      exact descends_of_mail hs hmail (putCost_of_receives hreceives) rfl fun k _ =>
        toPut_congr (unput_receive hmail hreceives) k
  | syncGet i j msg mailbox hmail hin =>
      have hreceives : Receives (.syncGet : InteractiveTask.Action (κ × M) κ) := trivial
      refine descends_of_mail hs hmail rfl rfl fun k hk => ?_
      have hscript : s.script i = [] := by
        cases InteractiveTask.moves_of_step hmail with
        | syncGet hat hsome => exact hs.nil_of_receiving hat
      have hbelow : ∀ p ∈ (b.onMessage i (s.members i) msg).2, p.1 ≠ k := by
        rintro p hp rfl
        exact absurd (hb.onMessage i _ msg p hp) (not_lt.mpr hk)
      rw [(hs.receive hscript hmail hreceives).toPut_handle hscript hbelow]
      exact toPut_congr (unput_receive hmail hreceives) k
  | onEvent => cases ha

/-! ## Everything is handled -/

/-- The steps that need nothing from outside. -/
def quietStep (b : Behaviour κ M E L) (s : Network κ M L) (a : Action κ E) :
    Option (Network κ M L) :=
  if a.isEvent = false then TaskNetwork.step b s a else none

omit [Fintype κ] in
theorem quietStep_eq_some {a : Action κ E} :
    quietStep b s a = some u ↔ a.isEvent = false ∧ TaskNetwork.step b s a = some u := by
  rw [quietStep, Option.ite_none_right_eq_some]

/-- In a ranked program, from any state of any run: without further events from outside
the tasks cannot go on for ever, some run brings them to rest, and whenever they are at
rest every task is back in its loop and everything that handlers were to send has been
handled, once and in order. -/
theorem drains {rank : κ → ℕ} (hb : Ranked b rank) {size : ℕ} (hsize : 2 ≤ size)
    {buff : ℕ → κ × M} {as : List (Action κ E)}
    (hrun : run (TaskNetwork.step b) (start b size buff) as = some s) :
    (∀ f : ℕ → Network κ M L, f 0 = s →
      ∃ n, ∀ a, a.isEvent = false → TaskNetwork.step b (f n) a ≠ some (f (n + 1))) ∧
    (∃ bs u, run (quietStep b) s bs = some u ∧ AtRest b u) ∧
    (AtRest b s → (∀ i, Idle s i) ∧
      ∀ i j, labelled i (s.mailbox j).handledLog = labelled j (s.asked i)) := by
  have hs := inv_of_run (Nat.le_of_succ_le hsize) hrun
  have hdown : SendsDown rank s :=
    run_invariant (I := SendsDown rank) (fun _ _ _ hs h => SendsDown.step hb hs h)
      (fun i p hp => hb.onStart i p hp) hrun
  have hI : ∀ s a t, Inv b size s → quietStep b s a = some t → Inv b size t :=
    fun _ _ _ hs h => hs.step (quietStep_eq_some.mp h).2
  have hμ : ∀ s a t, Inv b size s → quietStep b s a = some t →
      Progress.Descends rank (work t) (work s) := fun _ _ _ hs h =>
    hs.descends hb (quietStep_eq_some.mp h).1 (quietStep_eq_some.mp h).2
  refine ⟨fun f hf => ?_, ?_, fun hrest => ?_⟩
  · obtain ⟨n, hn⟩ := Progress.no_infinite_run (Progress.wellFounded_descends rank) hI hμ
      (f := f) (hf ▸ hs)
    exact ⟨n, fun a ha h => hn a (quietStep_eq_some.mpr ⟨ha, h⟩)⟩
  · obtain ⟨bs, u, hrun', hrest⟩ :=
      Progress.exists_run_to_rest (Progress.wellFounded_descends rank) hI hμ hs
    refine ⟨bs, u, hrun', fun a ha => ?_⟩
    have hnone := hrest a
    rwa [quietStep, if_pos ha] at hnone
  · refine ((idle_or_circle hsize hrun).1 hrest).resolve_right ?_
    rintro ⟨i, hcircle⟩
    exact Progress.no_cycle_of_rank (fun _ _ hw => hs.rank_lt_of_waits hdown hw) i hcircle

/-- One task passes on to the next what it is sent. -/
def passOn : Behaviour (Fin 3) ℕ Unit Unit where
  hasReactor i := i = 0
  onStart i := ((), if i = 2 then [(1, 7), (1, 8)] else [])
  onMessage i _ msg := ((), if i = 1 then [(0, msg), (0, msg)] else [])
  onEvent _ _ _ := ((), [])

theorem passOn_ranked : Ranked passOn fun i => i.val where
  onStart i p hp := by
    change p ∈ (if i = 2 then [(1, 7), (1, 8)] else []) at hp
    split_ifs at hp with hi
    · subst hi
      rcases List.mem_pair.mp hp with rfl | rfl <;> decide
    · cases hp
  onMessage i members msg p hp := by
    change p ∈ (if i = 1 then [(0, msg), (0, msg)] else []) at hp
    split_ifs at hp with hi
    · subst hi
      rcases List.mem_pair.mp hp with rfl | rfl <;> exact Nat.one_pos
    · cases hp
  onEvent i members e p hp := by cases hp

theorem drains_passOn :
    ∃ bs u, run (quietStep passOn) (start passOn 2 fun _ => (0, 0)) bs = some u ∧
      AtRest passOn u := by
  have hrun : run (TaskNetwork.step passOn) (start passOn 2 fun _ => (0, 0)) [] = some _ := rfl
  exact (drains passOn_ranked (by decide) hrun).2.1

end Banana.TaskNetwork
