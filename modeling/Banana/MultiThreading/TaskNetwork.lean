import Banana.Library.Progress
import Banana.MultiThreading.InteractiveTask

/-!
# Tasks that send each other messages

A program over `multi-threading/InteractiveTask.h` is a number of tasks whose
subclasses say what `onStart`, `onMessage` and the other handlers of a task do: they
work on members that only its own thread uses, and send messages.  `sendMsgTo` ends in
the `notifyMsg` of the receiver, which blocks while that mailbox is full.  Here all the
tasks are registered and run, so each name leads to its task, and each thread is in
`onStart`, in its loop, or in a handler with some messages still to send.

The messages carry the sender in the model only; no handler reads it.
-/

namespace Banana

open InteractiveTask Transition

namespace TaskNetwork

variable {κ M E L : Type*}

/-- The subclasses.  A handler computes the members and what it sends, in order. -/
structure Behaviour (κ M E L : Type*) where
  hasReactor : κ → Bool
  onStart : κ → L × List (κ × M)
  onMessage : κ → L → M → L × List (κ × M)
  onEvent : κ → L → E → L × List (κ × M)

/-- `script` is what the handler that a thread is in has still to send, and `asked`
logs all that its handlers were to send. -/
structure Network (κ M L : Type*) where
  members : κ → L
  script : κ → List (κ × M)
  mailbox : κ → Mailbox (κ × M) κ
  asked : κ → List (κ × M)

inductive Action (κ E : Type*)
  | notifyMsg (i : κ)
  | syncPut (i : κ)
  | write (i : κ)
  | fire (i : κ)
  | read (i : κ)
  | syncGet (i : κ)
  | finish (i : κ)
  | onEvent (i : κ) (e : E)

@[simp] def Action.isEvent : Action κ E → Bool
  | onEvent _ _ => true
  | _ => false

def start (b : Behaviour κ M E L) (size : ℕ) (buff : ℕ → κ × M) : Network κ M L where
  members i := (b.onStart i).1
  script i := (b.onStart i).2
  mailbox i := InteractiveTask.start (b.hasReactor i) size buff
  asked i := (b.onStart i).2

variable [DecidableEq κ]

/-- The thread of `i` among the senders to `j`. -/
def sender (i j : κ) : Option κ := if i = j then none else some i

def act (s : Network κ M L) (j : κ) (a : InteractiveTask.Action (κ × M) κ) :
    Option (Network κ M L) :=
  (InteractiveTask.step (s.mailbox j) a).map fun mailbox =>
    { s with mailbox := Function.update s.mailbox j mailbox }

/-- A handler of `i` begins. -/
def handle (s : Network κ M L) (i : κ) (out : L × List (κ × M)) : Network κ M L :=
  { s with
    members := Function.update s.members i out.1
    script := Function.update s.script i out.2
    asked := Function.update s.asked i (s.asked i ++ out.2) }

@[simp] theorem handle_members (s : Network κ M L) (i : κ) (out : L × List (κ × M)) :
    (handle s i out).members i = out.1 := Function.update_self _ _ _

@[simp] theorem handle_asked (s : Network κ M L) (i : κ) (out : L × List (κ × M)) :
    (handle s i out).asked i = s.asked i ++ out.2 := Function.update_self _ _ _

theorem handle_members_of_ne (s : Network κ M L) {i k : κ} (out : L × List (κ × M))
    (hne : k ≠ i) : (handle s i out).members k = s.members k := Function.update_of_ne hne _ _

theorem handle_asked_of_ne (s : Network κ M L) {i k : κ} (out : L × List (κ × M))
    (hne : k ≠ i) : (handle s i out).asked k = s.asked k := Function.update_of_ne hne _ _

def step (b : Behaviour κ M E L) (s : Network κ M L) : Action κ E → Option (Network κ M L)
  | .notifyMsg i =>
      match s.script i with
      | (j, msg) :: _ => act s j (.notifyMsg (sender i j) (i, msg))
      | [] => none
  | .syncPut i =>
      match s.script i with
      | (j, _) :: _ => act s j (.syncPut (sender i j))
      | [] => none
  | .write i =>
      match s.script i with
      | (j, _) :: rest =>
          (act s j (.write (sender i j))).map fun u =>
            { u with script := Function.update u.script i rest }
      | [] => none
  | .fire i =>
      match s.script i with
      | [] => act s i .fire
      | _ => none
  | .read i =>
      match s.script i with
      | [] => act s i .read
      | _ => none
  | .syncGet i =>
      (act s i .syncGet).map fun u =>
        match (u.mailbox i).receiver with
        | .inOnMessage (_, msg) => handle u i (b.onMessage i (s.members i) msg)
        | _ => u
  | .finish i =>
      match s.script i with
      | [] => act s i .finish
      | _ => none
  | .onEvent i e =>
      match s.script i, (s.mailbox i).receiver with
      | [], .inLoop =>
          if b.hasReactor i then some (handle s i (b.onEvent i (s.members i) e)) else none
      | _, _ => none

/-- What a step is, for the mailbox it is on. -/
inductive Moves (b : Behaviour κ M E L) (s : Network κ M L) :
    Action κ E → Network κ M L → Prop
  | notifyMsg (i j : κ) (msg : M) (rest : List (κ × M)) (mailbox : Mailbox (κ × M) κ)
      (hscript : s.script i = (j, msg) :: rest)
      (hmail : InteractiveTask.step (s.mailbox j) (.notifyMsg (sender i j) (i, msg)) =
        some mailbox) :
      Moves b s (.notifyMsg i) { s with mailbox := Function.update s.mailbox j mailbox }
  | syncPut (i j : κ) (msg : M) (rest : List (κ × M)) (mailbox : Mailbox (κ × M) κ)
      (hscript : s.script i = (j, msg) :: rest)
      (hmail : InteractiveTask.step (s.mailbox j) (.syncPut (sender i j)) = some mailbox) :
      Moves b s (.syncPut i) { s with mailbox := Function.update s.mailbox j mailbox }
  | write (i j : κ) (msg : M) (rest : List (κ × M)) (mailbox : Mailbox (κ × M) κ)
      (hscript : s.script i = (j, msg) :: rest)
      (hmail : InteractiveTask.step (s.mailbox j) (.write (sender i j)) = some mailbox) :
      Moves b s (.write i)
        { s with
          mailbox := Function.update s.mailbox j mailbox
          script := Function.update s.script i rest }
  | receive (a : Action κ E) (i : κ) (a' : InteractiveTask.Action (κ × M) κ)
      (mailbox : Mailbox (κ × M) κ)
      (ha : a = .fire i ∧ a' = .fire ∨ a = .read i ∧ a' = .read ∨ a = .finish i ∧ a' = .finish)
      (hscript : s.script i = [])
      (hmail : InteractiveTask.step (s.mailbox i) a' = some mailbox) :
      Moves b s a { s with mailbox := Function.update s.mailbox i mailbox }
  | syncGet (i j : κ) (msg : M) (mailbox : Mailbox (κ × M) κ)
      (hmail : InteractiveTask.step (s.mailbox i) .syncGet = some mailbox)
      (hin : mailbox.receiver = .inOnMessage (j, msg)) :
      Moves b s (.syncGet i)
        (handle { s with mailbox := Function.update s.mailbox i mailbox } i
          (b.onMessage i (s.members i) msg))
  | onEvent (i : κ) (e : E) (hscript : s.script i = [])
      (hloop : (s.mailbox i).receiver = .inLoop) (hreactor : b.hasReactor i = true) :
      Moves b s (.onEvent i e) (handle s i (b.onEvent i (s.members i) e))

theorem eq_of_act {s u : Network κ M L} {j : κ} {a : InteractiveTask.Action (κ × M) κ}
    (h : act s j a = some u) :
    ∃ mailbox, InteractiveTask.step (s.mailbox j) a = some mailbox ∧
      u = { s with mailbox := Function.update s.mailbox j mailbox } := by
  obtain ⟨mailbox, hmail, rfl⟩ := Option.map_eq_some_iff.mp h
  exact ⟨mailbox, hmail, rfl⟩

theorem moves_of_step {b : Behaviour κ M E L} {s u : Network κ M L} {a : Action κ E}
    (h : step b s a = some u) : Moves b s a u := by
  cases a with
  | notifyMsg i =>
      cases hscript : s.script i with
      | nil => simp [step, hscript] at h
      | cons p rest =>
          obtain ⟨j, msg⟩ := p
          simp only [step, hscript] at h
          obtain ⟨mailbox, hmail, rfl⟩ := eq_of_act h
          exact .notifyMsg i j msg rest mailbox hscript hmail
  | syncPut i =>
      cases hscript : s.script i with
      | nil => simp [step, hscript] at h
      | cons p rest =>
          obtain ⟨j, msg⟩ := p
          simp only [step, hscript] at h
          obtain ⟨mailbox, hmail, rfl⟩ := eq_of_act h
          exact .syncPut i j msg rest mailbox hscript hmail
  | write i =>
      cases hscript : s.script i with
      | nil => simp [step, hscript] at h
      | cons p rest =>
          obtain ⟨j, msg⟩ := p
          simp only [step, hscript, Option.map_eq_some_iff] at h
          obtain ⟨v, hact, rfl⟩ := h
          obtain ⟨mailbox, hmail, rfl⟩ := eq_of_act hact
          exact .write i j msg rest mailbox hscript hmail
  | fire i =>
      cases hscript : s.script i with
      | cons p rest => simp [step, hscript] at h
      | nil =>
          simp only [step, hscript] at h
          obtain ⟨mailbox, hmail, rfl⟩ := eq_of_act h
          exact .receive _ i .fire mailbox (.inl ⟨rfl, rfl⟩) hscript hmail
  | read i =>
      cases hscript : s.script i with
      | cons p rest => simp [step, hscript] at h
      | nil =>
          simp only [step, hscript] at h
          obtain ⟨mailbox, hmail, rfl⟩ := eq_of_act h
          exact .receive _ i .read mailbox (.inr (.inl ⟨rfl, rfl⟩)) hscript hmail
  | finish i =>
      cases hscript : s.script i with
      | cons p rest => simp [step, hscript] at h
      | nil =>
          simp only [step, hscript] at h
          obtain ⟨mailbox, hmail, rfl⟩ := eq_of_act h
          exact .receive _ i .finish mailbox (.inr (.inr ⟨rfl, rfl⟩)) hscript hmail
  | syncGet i =>
      simp only [step, Option.map_eq_some_iff] at h
      obtain ⟨v, hact, rfl⟩ := h
      obtain ⟨mailbox, hmail, rfl⟩ := eq_of_act hact
      have hin : ∃ j msg, mailbox.receiver = .inOnMessage (j, msg) := by
        cases InteractiveTask.moves_of_step hmail with
        | syncGet hat hsome => exact ⟨_, _, rfl⟩
      obtain ⟨j, msg, hin⟩ := hin
      simp only [Function.update_self, hin]
      exact .syncGet i j msg mailbox hmail hin
  | onEvent i e =>
      cases hscript : s.script i with
      | cons p rest => simp [step, hscript] at h
      | nil =>
          cases hloop : (s.mailbox i).receiver with
          | inLoop =>
              simp only [step, hscript, hloop, Option.ite_none_right_eq_some,
                Option.some.injEq] at h
              exact h.2 ▸ .onEvent i e hscript hloop h.1
          | _ => simp [step, hscript, hloop] at h

/-! ## Who sends what to whom -/

/-- The messages with a label: those of a script to a task, or of a mailbox from one. -/
def labelled (k : κ) (l : List (κ × M)) : List M :=
  l.filterMap fun p => if p.1 = k then some p.2 else none

@[simp] theorem labelled_nil (k : κ) : labelled k ([] : List (κ × M)) = [] := rfl

@[simp] theorem labelled_append (k : κ) (l l' : List (κ × M)) :
    labelled k (l ++ l') = labelled k l ++ labelled k l' := List.filterMap_append

theorem labelled_cons (k : κ) (p : κ × M) (l : List (κ × M)) :
    labelled k (p :: l) = (if p.1 = k then [p.2] else []) ++ labelled k l := by
  by_cases hk : p.1 = k <;> simp [labelled, hk]

theorem sender_inj {i i' j : κ} : sender i j = sender i' j ↔ i = i' := by
  constructor
  · intro h
    rw [sender, sender] at h
    split_ifs at h with hi hi' hi'
    · exact hi.trans hi'.symm
    · exact Option.some.inj h
  · rintro rfl
    rfl

theorem sender_ne_some (i j : κ) : sender i j ≠ some j := by
  rw [sender]
  split_ifs with hij
  · exact nofun
  · exact fun h => hij (Option.some.inj h)

theorem eq_sender (t : Option κ) (j : κ) : t = some j ∨ ∃ i, t = sender i j := by
  cases t with
  | none => exact .inr ⟨j, (if_pos rfl).symm⟩
  | some i =>
      by_cases hij : i = j
      · exact .inl (congrArg some hij)
      · exact .inr ⟨i, (if_neg hij).symm⟩

/-- What the thread of `i` has still to put into a queue. -/
def unput (s : Network κ M L) (i : κ) : List (κ × M) :=
  match s.script i with
  | [] => []
  | (j, msg) :: rest =>
      match (s.mailbox j).sender (sender i j) with
      | .atWrite => rest
      | _ => (j, msg) :: rest

theorem unput_of_idle {s : Network κ M L} {i : κ}
    (hidle : ∀ j, (s.mailbox j).sender (sender i j) = .idle) : unput s i = s.script i := by
  rw [unput]
  cases hscript : s.script i with
  | nil => rfl
  | cons p rest => simp only [hidle p.1]

theorem unput_congr {s u : Network κ M L} {i : κ} (hscript : u.script i = s.script i)
    (hsender : ∀ j, (u.mailbox j).sender (sender i j) = (s.mailbox j).sender (sender i j)) :
    unput u i = unput s i := by
  rw [unput, unput, hscript]
  cases s.script i with
  | nil => rfl
  | cons p rest => simp only [hsender]

/-- A thread is in the `notifyMsg` of the first message of its script, if in any, and
it goes through its script in order. -/
structure Inv [Fintype κ] (b : Behaviour κ M E L) (size : ℕ) (s : Network κ M L) : Prop where
  mailbox : ∀ j, InteractiveTask.Inv (s.mailbox j)
  reactor : ∀ j, (s.mailbox j).hasReactor = b.hasReactor j
  size : ∀ j, (s.mailbox j).recvMsgQueue.size = size
  idle : ∀ i j, (∀ msg rest, s.script i ≠ (j, msg) :: rest) →
    (s.mailbox j).sender (sender i j) = .idle
  putting : ∀ i j msg rest p, s.script i = (j, msg) :: rest →
    (s.mailbox j).sender (sender i j) = .atSyncPut p → p = (i, msg)
  stray : ∀ j, (s.mailbox j).sender (some j) = .idle
  busy : ∀ i, s.script i ≠ [] → maySend (s.mailbox i) none = true
  sent : ∀ i j, labelled j (s.asked i) =
    labelled i (s.mailbox j).putLog ++ labelled j (unput s i)

variable {b : Behaviour κ M E L} {size : ℕ} {s u : Network κ M L}

theorem inv_start [Fintype κ] (b : Behaviour κ M E L) {size : ℕ} (hsize : 1 ≤ size)
    (buff : ℕ → κ × M) : Inv b size (start b size buff) where
  mailbox _ := InteractiveTask.inv_start _ hsize buff
  reactor _ := rfl
  size _ := rfl
  idle _ _ _ := rfl
  putting _ _ _ _ _ _ h := nomatch h
  stray _ := rfl
  busy _ _ := rfl
  sent i j := by
    rw [unput_of_idle fun _ => rfl]
    rfl

/-- What one step of `notifyMsg` changes in the mailbox. -/
theorem notifyMsg_spec {m m' : Mailbox (κ × M) κ} {t : Option κ} {p : κ × M}
    (h : InteractiveTask.step m (.notifyMsg t p) = some m') :
    m.sender t = .idle ∧ m'.sender = Function.update m.sender t (.atSyncPut p) ∧
      m'.receiver = m.receiver ∧ m'.putLog = m.putLog := by
  cases InteractiveTask.moves_of_step h with
  | notifyMsg _ _ hidle hmay => exact ⟨hidle, rfl, rfl, rfl⟩

theorem syncPut_spec {m m' : Mailbox (κ × M) κ} {t : Option κ}
    (h : InteractiveTask.step m (.syncPut t) = some m') :
    ∃ p, m.sender t = .atSyncPut p ∧ m'.sender = Function.update m.sender t .atWrite ∧
      m'.receiver = m.receiver ∧ m'.putLog = m.putLog ++ [p] := by
  cases InteractiveTask.moves_of_step h with
  | syncPut _ p hat hroom => exact ⟨p, hat, rfl, rfl, rfl⟩

theorem write_spec {m m' : Mailbox (κ × M) κ} {t : Option κ}
    (h : InteractiveTask.step m (.write t) = some m') :
    m.sender t = .atWrite ∧ m'.sender = Function.update m.sender t .idle ∧
      m'.receiver = m.receiver ∧ m'.putLog = m.putLog := by
  cases InteractiveTask.moves_of_step h with
  | write _ hat => exact ⟨hat, rfl, rfl, rfl⟩

/-- A step of the receiver, at the end of which the message is handled. -/
def Receives : InteractiveTask.Action (κ × M) κ → Prop
  | .fire => True
  | .read => True
  | .syncGet => True
  | .finish => True
  | _ => False

theorem receives_spec {m m' : Mailbox (κ × M) κ} {a : InteractiveTask.Action (κ × M) κ}
    (h : InteractiveTask.step m a = some m') (ha : Receives a) :
    m'.sender = m.sender ∧ m'.putLog = m.putLog := by
  cases InteractiveTask.moves_of_step h with
  | notifyMsg t msg hidle hmay => exact ha.elim
  | syncPut t msg hat hroom => exact ha.elim
  | write t hat => exact ha.elim
  | _ => exact ⟨rfl, rfl⟩

theorem unput_receive {i : κ} {a : InteractiveTask.Action (κ × M) κ}
    {mailbox : Mailbox (κ × M) κ} (h : InteractiveTask.step (s.mailbox i) a = some mailbox)
    (ha : Receives a) (i' : κ) :
    unput { s with mailbox := Function.update s.mailbox i mailbox } i' = unput s i' := by
  refine unput_congr rfl fun j => ?_
  change (Function.update s.mailbox i mailbox j).sender _ = _
  by_cases hj : j = i
  · subst hj
    rw [Function.update_self, (receives_spec h ha).1]
  · rw [Function.update_of_ne hj]

theorem unput_handle_of_ne {i : κ} (out : L × List (κ × M)) (i' : κ) (hi : i' ≠ i) :
    unput (handle s i out) i' = unput s i' :=
  unput_congr (Function.update_of_ne hi _ _) fun _ => rfl

theorem putLog_update {m : Mailbox (κ × M) κ} {j : κ} (hm : m.putLog = (s.mailbox j).putLog)
    (k : κ) : (Function.update s.mailbox j m k).putLog = (s.mailbox k).putLog := by
  by_cases hk : k = j
  · subst hk
    rw [Function.update_self, hm]
  · rw [Function.update_of_ne hk]

theorem unput_cons {i j : κ} {msg : M} {rest : List (κ × M)}
    (hscript : s.script i = (j, msg) :: rest)
    (hne : (s.mailbox j).sender (sender i j) ≠ .atWrite) : unput s i = (j, msg) :: rest := by
  rw [unput, hscript]
  cases hat : (s.mailbox j).sender (sender i j) with
  | atWrite => exact absurd hat hne
  | idle => simp only [hat]
  | atSyncPut p => simp only [hat]

theorem unput_atWrite {i j : κ} {msg : M} {rest : List (κ × M)}
    (hscript : s.script i = (j, msg) :: rest)
    (hat : (s.mailbox j).sender (sender i j) = .atWrite) : unput s i = rest := by
  rw [unput, hscript]
  simp only [hat]

variable [Fintype κ]

/-- In the middle of nothing, no message of the thread is on its way. -/
theorem Inv.idle_of_nil (hs : Inv b size s) {i : κ} (hscript : s.script i = []) (j : κ) :
    (s.mailbox j).sender (sender i j) = .idle :=
  hs.idle i j fun msg rest h => by simp [hscript] at h

theorem Inv.idle_of_ne (hs : Inv b size s) {i j : κ} {msg : M} {rest : List (κ × M)}
    (hscript : s.script i = (j, msg) :: rest) {j' : κ} (hne : j' ≠ j) :
    (s.mailbox j').sender (sender i j') = .idle := by
  refine hs.idle i j' fun msg' rest' h => hne ?_
  rw [hscript] at h
  exact (congrArg Prod.fst (List.cons.inj h).1).symm

/-- A step of the mailbox of `j`. -/
theorem Inv.mail (hs : Inv b size s) {j : κ} {a : InteractiveTask.Action (κ × M) κ}
    {mailbox : Mailbox (κ × M) κ}
    (h : InteractiveTask.step (s.mailbox j) a = some mailbox) (k : κ) :
    InteractiveTask.Inv (Function.update s.mailbox j mailbox k) ∧
      (Function.update s.mailbox j mailbox k).hasReactor = b.hasReactor k ∧
      (Function.update s.mailbox j mailbox k).recvMsgQueue.size = size := by
  by_cases hk : k = j
  · subst hk
    obtain ⟨hreactor, hsize⟩ := (InteractiveTask.moves_of_step h).frame
    rw [Function.update_self]
    exact ⟨(hs.mailbox k).step h, hreactor.trans (hs.reactor k), hsize.trans (hs.size k)⟩
  · rw [Function.update_of_ne hk]
    exact ⟨hs.mailbox k, hs.reactor k, hs.size k⟩

section Sending

variable {i j : κ} {mailbox : Mailbox (κ × M) κ} {pc : SenderPc (κ × M)} {script : List (κ × M)}

omit [Fintype κ] in
theorem sender_of_sends
    (hsender : mailbox.sender = Function.update (s.mailbox j).sender (sender i j) pc)
    (hmailbox : u.mailbox = Function.update s.mailbox j mailbox) {j' : κ} {t : Option κ}
    (hne : j' = j → t ≠ sender i j) : (u.mailbox j').sender t = (s.mailbox j').sender t := by
  rw [hmailbox]
  by_cases hj : j' = j
  · subst hj
    rw [Function.update_self, hsender, Function.update_of_ne (hne rfl)]
  · rw [Function.update_of_ne hj]

omit [Fintype κ] in
theorem sender_of_ne
    (hsender : mailbox.sender = Function.update (s.mailbox j).sender (sender i j) pc)
    (hmailbox : u.mailbox = Function.update s.mailbox j mailbox) {i' : κ} (hi : i' ≠ i) (j' : κ) :
    (u.mailbox j').sender (sender i' j') = (s.mailbox j').sender (sender i' j') := by
  refine sender_of_sends hsender hmailbox ?_
  rintro rfl heq
  exact hi (sender_inj.mp heq)

omit [Fintype κ] in
/-- The scripts of the other threads are as they were. -/
theorem unput_of_ne
    (hsender : mailbox.sender = Function.update (s.mailbox j).sender (sender i j) pc)
    (hmailbox : u.mailbox = Function.update s.mailbox j mailbox)
    (hscript : u.script = Function.update s.script i script) {i' : κ} (hi : i' ≠ i) :
    unput u i' = unput s i' := by
  refine unput_congr ?_ (sender_of_ne hsender hmailbox hi)
  rw [hscript, Function.update_of_ne hi]

/-- A step of the thread of `i` in the `notifyMsg` of its first message. -/
theorem Inv.sends (hs : Inv b size s) {msg : M} {rest : List (κ × M)}
    (hscript : s.script i = (j, msg) :: rest) {a : InteractiveTask.Action (κ × M) κ}
    (h : InteractiveTask.step (s.mailbox j) a = some mailbox)
    (hsender : mailbox.sender = Function.update (s.mailbox j).sender (sender i j) pc)
    (hreceiver : mailbox.receiver = (s.mailbox j).receiver)
    (hmailbox : u.mailbox = Function.update s.mailbox j mailbox)
    (hscript' : u.script = Function.update s.script i script) (hasked : u.asked = s.asked)
    (hidle : (∀ msg rest, script ≠ (j, msg) :: rest) → pc = .idle)
    (hputting : ∀ msg rest p, script = (j, msg) :: rest → pc = .atSyncPut p → p = (i, msg))
    (hlog : ∀ i', i' ≠ i → labelled i' mailbox.putLog = labelled i' (s.mailbox j).putLog)
    (hsent : ∀ j', labelled j' (s.asked i) =
      labelled i (u.mailbox j').putLog ++ labelled j' (unput u i)) :
    Inv b size u := by
  have hmail := hs.mail h
  rw [← hmailbox] at hmail
  have hself : (u.mailbox j).sender (sender i j) = pc := by
    rw [hmailbox, Function.update_self, hsender, Function.update_self]
  refine ⟨fun k => (hmail k).1, fun k => (hmail k).2.1, fun k => (hmail k).2.2, ?_, ?_, ?_, ?_, ?_⟩
  · intro i' j' hno
    by_cases hi : i' = i
    · subst hi
      rw [hscript', Function.update_self] at hno
      by_cases hj : j' = j
      · subst hj
        rw [hself]
        exact hidle hno
      · rw [sender_of_sends hsender hmailbox fun hj' => absurd hj' hj]
        exact hs.idle_of_ne hscript hj
    · rw [sender_of_ne hsender hmailbox hi]
      refine hs.idle i' j' fun msg' rest' h' => hno msg' rest' ?_
      rw [hscript', Function.update_of_ne hi, h']
  · intro i' j' msg' rest' p hfirst hput
    by_cases hi : i' = i
    · subst hi
      rw [hscript', Function.update_self] at hfirst
      by_cases hj : j' = j
      · subst hj
        exact hputting msg' rest' p hfirst (hself.symm.trans hput)
      · rw [sender_of_sends hsender hmailbox fun hj' => absurd hj' hj,
          hs.idle_of_ne hscript hj] at hput
        cases hput
    · rw [sender_of_ne hsender hmailbox hi] at hput
      rw [hscript', Function.update_of_ne hi] at hfirst
      exact hs.putting i' j' msg' rest' p hfirst hput
  · intro j'
    rw [sender_of_sends hsender hmailbox fun hj => hj ▸ (sender_ne_some i j').symm]
    exact hs.stray j'
  · intro i' hne
    have hbusy : s.script i' ≠ [] := by
      by_cases hi : i' = i
      · subst hi
        rw [hscript]
        exact List.cons_ne_nil _ _
      · rwa [hscript', Function.update_of_ne hi] at hne
    have hmay := hs.busy i' hbusy
    rw [hmailbox]
    by_cases hj : i' = j
    · subst hj
      rw [Function.update_self]
      rwa [maySend, hreceiver]
    · rwa [Function.update_of_ne hj]
  · intro i' j'
    rw [hasked]
    by_cases hi : i' = i
    · subst hi
      exact hsent j'
    · have hputLog : labelled i' (u.mailbox j').putLog = labelled i' (s.mailbox j').putLog := by
        rw [hmailbox]
        by_cases hj : j' = j
        · subst hj
          rw [Function.update_self]
          exact hlog i' hi
        · rw [Function.update_of_ne hj]
      rw [unput_of_ne hsender hmailbox hscript' hi, hputLog]
      exact hs.sent i' j'

/-! What is left of the script after each step of `notifyMsg`. -/

omit [Fintype κ] in
theorem unput_notifyMsg {msg : M} {rest : List (κ × M)} (hscript : s.script i = (j, msg) :: rest)
    (h : InteractiveTask.step (s.mailbox j) (.notifyMsg (sender i j) (i, msg)) = some mailbox)
    (i' : κ) : unput { s with mailbox := Function.update s.mailbox j mailbox } i' = unput s i' := by
  obtain ⟨hidle, hsender, -, -⟩ := notifyMsg_spec h
  by_cases hi : i' = i
  · subst hi
    rw [unput_cons hscript (by rw [hidle]; exact nofun)]
    refine unput_cons hscript ?_
    simp only [Function.update_self, hsender]
    exact nofun
  · exact unput_of_ne (u := { s with mailbox := Function.update s.mailbox j mailbox }) hsender rfl
      (Function.update_eq_self i s.script).symm hi

theorem Inv.unput_syncPut (hs : Inv b size s) {msg : M} {rest : List (κ × M)}
    (hscript : s.script i = (j, msg) :: rest)
    (h : InteractiveTask.step (s.mailbox j) (.syncPut (sender i j)) = some mailbox) :
    mailbox.putLog = (s.mailbox j).putLog ++ [(i, msg)] ∧
      unput s i =
        (j, msg) :: unput { s with mailbox := Function.update s.mailbox j mailbox } i := by
  obtain ⟨p, hat, hsender, -, hputLog⟩ := syncPut_spec h
  obtain rfl := hs.putting i j msg rest p hscript hat
  refine ⟨hputLog, (unput_cons hscript (by rw [hat]; exact nofun)).trans ?_⟩
  have hafter : unput { s with mailbox := Function.update s.mailbox j mailbox } i = rest := by
    refine unput_atWrite (show s.script i = (j, msg) :: rest from hscript) ?_
    simp only [Function.update_self, hsender]
  rw [hafter]

theorem Inv.unput_write (hs : Inv b size s) {msg : M} {rest : List (κ × M)}
    (hscript : s.script i = (j, msg) :: rest)
    (h : InteractiveTask.step (s.mailbox j) (.write (sender i j)) = some mailbox) (i' : κ) :
    unput { s with
      mailbox := Function.update s.mailbox j mailbox
      script := Function.update s.script i rest } i' = unput s i' := by
  obtain ⟨hat, hsender, -, -⟩ := write_spec h
  by_cases hi : i' = i
  · subst hi
    rw [unput_atWrite hscript hat, unput_of_idle fun k => ?_]
    · exact Function.update_self _ _ _
    · change (Function.update s.mailbox j mailbox k).sender _ = _
      by_cases hk : k = j
      · subst hk
        rw [Function.update_self, hsender, Function.update_self]
      · rw [Function.update_of_ne hk]
        exact hs.idle_of_ne hscript hk
  · exact unput_of_ne hsender rfl rfl hi

end Sending

theorem Inv.notifyMsg (hs : Inv b size s) {i j : κ} {msg : M} {rest : List (κ × M)}
    {mailbox : Mailbox (κ × M) κ} (hscript : s.script i = (j, msg) :: rest)
    (h : InteractiveTask.step (s.mailbox j) (.notifyMsg (sender i j) (i, msg)) = some mailbox) :
    Inv b size { s with mailbox := Function.update s.mailbox j mailbox } := by
  obtain ⟨hidle, hsender, hreceiver, hputLog⟩ := notifyMsg_spec h
  refine hs.sends hscript h hsender hreceiver rfl
    (Function.update_eq_self i s.script).symm rfl (fun hno => absurd hscript (hno msg rest))
    (fun msg' rest' p hfirst hp => ?_) (fun _ _ => by rw [hputLog]) fun j' => ?_
  · rw [hscript] at hfirst
    obtain ⟨hmsg, -⟩ := List.cons.inj hfirst
    rw [← SenderPc.atSyncPut.inj hp, ← (Prod.mk.inj hmsg).2]
  · rw [unput_notifyMsg hscript h]
    exact (hs.sent i j').trans (congrArg (labelled i · ++ _) (putLog_update hputLog j').symm)

theorem Inv.syncPut (hs : Inv b size s) {i j : κ} {msg : M} {rest : List (κ × M)}
    {mailbox : Mailbox (κ × M) κ} (hscript : s.script i = (j, msg) :: rest)
    (h : InteractiveTask.step (s.mailbox j) (.syncPut (sender i j)) = some mailbox) :
    Inv b size { s with mailbox := Function.update s.mailbox j mailbox } := by
  obtain ⟨-, -, hsender, hreceiver, -⟩ := syncPut_spec h
  obtain ⟨hputLog, hunput⟩ := hs.unput_syncPut hscript h
  refine hs.sends hscript h hsender hreceiver rfl
    (Function.update_eq_self i s.script).symm rfl (fun hno => absurd hscript (hno msg rest))
    (fun _ _ _ _ => nofun) (fun i' hi => ?_) fun j' => ?_
  · rw [hputLog, labelled_append, labelled_cons, if_neg hi.symm]
    exact List.append_nil _
  · rw [hs.sent i j', hunput, labelled_cons, ← List.append_assoc]
    refine congrArg (· ++ labelled j' _) ?_
    change _ = labelled i (Function.update s.mailbox j mailbox j').putLog
    by_cases hj : j' = j
    · subst hj
      rw [Function.update_self, hputLog, labelled_append, labelled_cons, if_pos rfl, if_pos rfl]
      exact (congrArg _ (List.append_nil _)).symm
    · rw [Function.update_of_ne hj, if_neg (Ne.symm hj), List.append_nil]

theorem Inv.write (hs : Inv b size s) {i j : κ} {msg : M} {rest : List (κ × M)}
    {mailbox : Mailbox (κ × M) κ} (hscript : s.script i = (j, msg) :: rest)
    (h : InteractiveTask.step (s.mailbox j) (.write (sender i j)) = some mailbox) :
    Inv b size { s with
      mailbox := Function.update s.mailbox j mailbox
      script := Function.update s.script i rest } := by
  obtain ⟨hat, hsender, hreceiver, hputLog⟩ := write_spec h
  refine hs.sends hscript h hsender hreceiver rfl rfl rfl
    (fun _ => rfl) (fun _ _ _ _ => nofun) (fun _ _ => by rw [hputLog]) fun j' => ?_
  rw [hs.unput_write hscript h]
  exact (hs.sent i j').trans (congrArg (labelled i · ++ _) (putLog_update hputLog j').symm)

/-- The thread of `i` goes on to receive, or is done with a handler. -/
theorem Inv.receive (hs : Inv b size s) {i : κ} (hscript : s.script i = [])
    {a : InteractiveTask.Action (κ × M) κ} {mailbox : Mailbox (κ × M) κ}
    (h : InteractiveTask.step (s.mailbox i) a = some mailbox) (ha : Receives a) :
    Inv b size { s with mailbox := Function.update s.mailbox i mailbox } := by
  have hmail := hs.mail h
  obtain ⟨hsender, hputLog⟩ := receives_spec h ha
  have hsame : ∀ j t, (Function.update s.mailbox i mailbox j).sender t =
      (s.mailbox j).sender t := by
    intro j t
    by_cases hj : j = i
    · subst hj
      rw [Function.update_self, hsender]
    · rw [Function.update_of_ne hj]
  refine ⟨fun k => (hmail k).1, fun k => (hmail k).2.1, fun k => (hmail k).2.2,
    fun i' j hno => ?_, fun i' j msg rest p hfirst hput => ?_, fun j => ?_, fun i' hne => ?_,
    fun i' j => ?_⟩
  · exact (hsame j _).trans (hs.idle i' j hno)
  · exact hs.putting i' j msg rest p hfirst ((hsame j _).symm.trans hput)
  · exact (hsame j _).trans (hs.stray j)
  · have hi : i' ≠ i := by
      rintro rfl
      exact hne hscript
    change maySend (Function.update s.mailbox i mailbox i') none = true
    rw [Function.update_of_ne hi]
    exact hs.busy i' hne
  · rw [unput_receive h ha]
    exact (hs.sent i' j).trans (congrArg (labelled i' · ++ _) (putLog_update hputLog j).symm)

theorem Inv.unput_handle (hs : Inv b size s) {i : κ} (hscript : s.script i = [])
    (out : L × List (κ × M)) : unput (TaskNetwork.handle s i out) i = out.2 := by
  rw [unput_of_idle (s := TaskNetwork.handle s i out) (hs.idle_of_nil hscript)]
  exact Function.update_self _ _ _

theorem Inv.handle (hs : Inv b size s) {i : κ} (hscript : s.script i = [])
    (hmay : maySend (s.mailbox i) none = true) (out : L × List (κ × M)) :
    Inv b size (handle s i out) := by
  have hothers : ∀ i', i' ≠ i → (TaskNetwork.handle s i out).script i' = s.script i' :=
    fun i' hi => Function.update_of_ne hi _ _
  refine ⟨hs.mailbox, hs.reactor, hs.size, fun i' j hno => ?_,
    fun i' j msg rest p hfirst hput => ?_, hs.stray, fun i' hne => ?_, fun i' j => ?_⟩
  · by_cases hi : i' = i
    · subst hi
      exact hs.idle_of_nil hscript j
    · rw [hothers i' hi] at hno
      exact hs.idle i' j hno
  · by_cases hi : i' = i
    · subst hi
      rw [TaskNetwork.handle, hs.idle_of_nil hscript j] at hput
      cases hput
    · rw [hothers i' hi] at hfirst
      exact hs.putting i' j msg rest p hfirst hput
  · by_cases hi : i' = i
    · subst hi
      exact hmay
    · rw [hothers i' hi] at hne
      exact hs.busy i' hne
  · by_cases hi : i' = i
    · subst hi
      have hbefore := hs.sent i' j
      rw [unput_of_idle (hs.idle_of_nil hscript), hscript, labelled_nil, List.append_nil]
        at hbefore
      rw [hs.unput_handle hscript]
      rw [handle_asked, labelled_append, hbefore]
      rfl
    · rw [unput_handle_of_ne out i' hi, handle_asked_of_ne s out hi]
      exact hs.sent i' j

/-- A handler of a task runs when it has nothing to send. -/
theorem Inv.nil_of_receiving (hs : Inv b size s) {i : κ} {v : ℕ}
    (hat : (s.mailbox i).receiver = .atSyncGet v) : s.script i = [] := by
  by_contra hne
  have hmay := hs.busy i hne
  simp [maySend, hat] at hmay

theorem Inv.step (hs : Inv b size s) {a : Action κ E} (h : TaskNetwork.step b s a = some u) :
    Inv b size u := by
  cases moves_of_step h with
  | notifyMsg i j msg rest mailbox hscript hmail => exact hs.notifyMsg hscript hmail
  | syncPut i j msg rest mailbox hscript hmail => exact hs.syncPut hscript hmail
  | write i j msg rest mailbox hscript hmail => exact hs.write hscript hmail
  | receive a i a' mailbox ha hscript hmail =>
      refine hs.receive hscript hmail ?_
      rcases ha with ⟨-, rfl⟩ | ⟨-, rfl⟩ | ⟨-, rfl⟩ <;> trivial
  | syncGet i j msg mailbox hmail hin =>
      cases InteractiveTask.moves_of_step hmail with
      | syncGet hat hsome =>
          have hscript := hs.nil_of_receiving hat
          refine (hs.receive hscript hmail trivial).handle hscript ?_ _
          change maySend (Function.update s.mailbox i _ i) none = true
          rw [Function.update_self]
          rfl
  | onEvent i e hscript hloop hreactor =>
      refine hs.handle hscript ?_ _
      rw [maySend, hloop]

theorem inv_of_run {size : ℕ} (hsize : 1 ≤ size) {buff : ℕ → κ × M} {as : List (Action κ E)}
    (hrun : run (TaskNetwork.step b) (start b size buff) as = some s) : Inv b size s :=
  run_invariant (fun _ _ _ hs h => hs.step h) (inv_start b hsize buff) hrun

/-! ## Delivery -/

/-- What a task has been sent by another, handled or queued, and what is still to come. -/
theorem Inv.delivery (hs : Inv b size s) (i j : κ) :
    labelled j (s.asked i) = labelled i (s.mailbox j).handledLog ++
      labelled i (s.mailbox j).recvMsgQueue.elements ++ labelled j (unput s i) := by
  rw [hs.sent i j, (hs.mailbox j).delivery, labelled_append]

/-- In any run of any number of tasks that send each other messages from their handlers,
to others and to themselves: between any two of them every message is handled once and
in the order in which it was to be sent, and what is not yet handled is in the queue or
in the script of the sender.  Every read of an eventfd gives 1 and finds a message. -/
theorem delivers_in_order {size : ℕ} (hsize : 1 ≤ size) {buff : ℕ → κ × M}
    {as : List (Action κ E)} (hrun : run (TaskNetwork.step b) (start b size buff) as = some s)
    (i j : κ) :
    labelled j (s.asked i) = labelled i (s.mailbox j).handledLog ++
        labelled i (s.mailbox j).recvMsgQueue.elements ++ labelled j (unput s i) ∧
      unput s i <:+ s.script i ∧
      ∀ v, (s.mailbox j).receiver = .atSyncGet v →
        v = 1 ∧ (s.mailbox j).recvMsgQueue.elements ≠ [] := by
  have hs := inv_of_run hsize hrun
  refine ⟨hs.delivery i j, ?_, fun v hat => ⟨(hs.mailbox j).readOne v hat, ?_⟩⟩
  · cases hscript : s.script i with
    | nil => rw [unput_of_idle (hs.idle_of_nil hscript), hscript]
    | cons p rest =>
        obtain ⟨k, msg⟩ := p
        by_cases hat : (s.mailbox k).sender (sender i k) = .atWrite
        · rw [unput_atWrite hscript hat]
          exact List.suffix_cons _ _
        · rw [unput_cons hscript hat]
  · obtain ⟨msg, rest, hqueue, -⟩ := (hs.mailbox j).syncGet_finishes hat
    rw [hqueue]
    exact List.cons_ne_nil _ _

/-- Two tasks that begin by sending each other two messages. -/
def eachOther : Behaviour (Fin 2) ℕ Unit Unit where
  hasReactor _ := true
  onStart i := ((), [(1 - i, 1), (1 - i, 2)])
  onMessage _ _ _ := ((), [])
  onEvent _ _ _ := ((), [])

/-- Each has put the first message, and is in the `notifyMsg` of the second. -/
def bothPut : List (Action (Fin 2) Unit) :=
  [.notifyMsg 0, .syncPut 0, .write 0, .notifyMsg 0, .notifyMsg 1, .syncPut 1, .write 1,
    .notifyMsg 1]

theorem delivers_in_order_bothPut :
    ∃ s, run (TaskNetwork.step eachOther) (start eachOther 2 fun _ => (0, 0)) bothPut = some s ∧
      labelled 1 (s.asked 0) = [1, 2] ∧ labelled 0 (s.mailbox 1).recvMsgQueue.elements = [1] ∧
      labelled 1 (unput s 0) = [2] ∧
      labelled 1 (s.asked 0) = labelled 0 (s.mailbox 1).handledLog ++
        labelled 0 (s.mailbox 1).recvMsgQueue.elements ++ labelled 1 (unput s 0) := by
  have hrun : run (TaskNetwork.step eachOther) (start eachOther 2 fun _ => (0, 0)) bothPut =
      some _ := rfl
  exact ⟨_, rfl, rfl, rfl, rfl, (delivers_in_order (by decide) hrun 0 1).1⟩

/-! ## Standing still -/

/-- Nothing happens any more, unless from outside. -/
def AtRest (b : Behaviour κ M E L) (s : Network κ M L) : Prop :=
  ∀ a, a.isEvent = false → TaskNetwork.step b s a = none

structure Idle (s : Network κ M L) (i : κ) : Prop where
  script : s.script i = []
  receiver : (s.mailbox i).receiver = .inLoop
  queue : (s.mailbox i).recvMsgQueue.elements = []

/-- A sender is in `syncPut` while the queue is full. -/
structure Blocked (m : Mailbox (κ × M) κ) (t : Option κ) : Prop where
  putting : ∃ p, m.sender t = .atSyncPut p
  full : m.recvMsgQueue.next m.recvMsgQueue.head = m.recvMsgQueue.tail

def WaitsFor (s : Network κ M L) (i j : κ) : Prop := Blocked (s.mailbox j) (sender i j)

theorem Inv.script_of_busy (hs : Inv b size s) {i j : κ}
    (hbusy : (s.mailbox j).sender (sender i j) ≠ .idle) :
    ∃ msg rest, s.script i = (j, msg) :: rest := by
  by_contra hno
  push Not at hno
  exact hbusy (hs.idle i j hno)

theorem Inv.script_of_waits (hs : Inv b size s) {i j : κ} (h : WaitsFor s i j) :
    ∃ msg rest, s.script i = (j, msg) :: rest := by
  obtain ⟨p, hput⟩ := h.putting
  exact hs.script_of_busy (by rw [hput]; exact nofun)

theorem Inv.maySend_head (hs : Inv b size s) {i j : κ} {msg : M} {rest : List (κ × M)}
    (hscript : s.script i = (j, msg) :: rest) :
    maySend (s.mailbox j) (sender i j) = true := by
  rw [sender]
  split_ifs with hij
  · subst hij
    exact hs.busy i (by rw [hscript]; exact List.cons_ne_nil _ _)
  · rfl

/-- A thread with something to send goes on, or waits for room. -/
theorem Inv.waits_of_rest (hs : Inv b size s) (hrest : AtRest b s) {i : κ}
    (hne : s.script i ≠ []) : ∃ j, WaitsFor s i j := by
  obtain ⟨⟨j, msg⟩, rest, hscript⟩ := List.exists_cons_of_ne_nil hne
  cases hat : (s.mailbox j).sender (sender i j) with
  | idle =>
      have hstuck := hrest (.notifyMsg i) rfl
      rw [TaskNetwork.step, hscript] at hstuck
      simp [act, InteractiveTask.step, hat, hs.maySend_head hscript] at hstuck
  | atWrite =>
      have hstuck := hrest (.write i) rfl
      rw [TaskNetwork.step, hscript] at hstuck
      simp [act, InteractiveTask.step, hat] at hstuck
  | atSyncPut p =>
      refine ⟨j, ⟨p, hat⟩, ?_⟩
      by_contra hroom
      have hstuck := hrest (.syncPut i) rfl
      rw [TaskNetwork.step, hscript] at hstuck
      simp [act, InteractiveTask.step, hat, ConcurrentRingBuffer.syncPut, hroom] at hstuck

/-- Nobody is between `syncPut` and `write`. -/
theorem Inv.putNotWritten_of_rest (hs : Inv b size s) (hrest : AtRest b s) (j : κ) :
    putNotWritten (s.mailbox j) = 0 := by
  refine Threads.count_eq_zero_iff.mpr fun t => ?_
  rcases eq_sender t j with rfl | ⟨i, rfl⟩
  · rw [hs.stray j]
    rfl
  · cases hat : (s.mailbox j).sender (sender i j) with
    | idle => rfl
    | atSyncPut p => rfl
    | atWrite =>
        obtain ⟨msg, rest, hscript⟩ := hs.script_of_busy (by rw [hat]; exact nofun)
        have hstuck := hrest (.write i) rfl
        rw [TaskNetwork.step, hscript] at hstuck
        simp [act, InteractiveTask.step, hat] at hstuck

/-- A thread with nothing to send has handled all its messages. -/
theorem Inv.idle_of_rest (hs : Inv b size s) (hrest : AtRest b s) {i : κ}
    (hscript : s.script i = []) : Idle s i := by
  have hown : (s.mailbox i).sender none = .idle := by
    have hidle := hs.idle_of_nil hscript i
    rwa [sender, if_pos rfl] at hidle
  have hfire := hrest (.fire i) rfl
  have hread := hrest (.read i) rfl
  have hsyncGet := hrest (.syncGet i) rfl
  have hfinish := hrest (.finish i) rfl
  simp only [TaskNetwork.step, hscript, act, Option.map_eq_none_iff] at hfire hread hsyncGet hfinish
  cases hat : (s.mailbox i).receiver with
  | atRead =>
      have hsome := EventFd.read_isSome ((hs.mailbox i).readable hat)
      rw [InteractiveTask.step, hat, hown] at hread
      simp only [readEventFd, Option.map_eq_none_iff] at hread
      rw [hread] at hsome
      cases hsome
  | atSyncGet v =>
      obtain ⟨msg, rest, -, hget⟩ := (hs.mailbox i).syncGet_finishes hat
      obtain rfl := (hs.mailbox i).readOne v hat
      simp [InteractiveTask.step, hat, hget] at hsyncGet
  | inOnMessage msg => simp [InteractiveTask.step, hat, hown] at hfinish
  | inLoop =>
      have hcounter : (s.mailbox i).eventFd.counter = 0 := by
        by_contra hne
        have hpos := Nat.pos_of_ne_zero hne
        have hsome := EventFd.read_isSome hpos
        cases hreactor : (s.mailbox i).hasReactor with
        | true =>
            have harmed := (hs.mailbox i).armed hat
            rw [hreactor] at harmed
            simp [InteractiveTask.step, hat, hown, harmed, hpos] at hfire
        | false =>
            rw [InteractiveTask.step, hat, hown] at hread
            simp only [hreactor, Bool.false_eq_true, if_false, readEventFd,
              Option.map_eq_none_iff] at hread
            rw [hread] at hsome
            cases hsome
      refine ⟨hscript, hat, List.length_eq_zero_iff.mp ?_⟩
      have hpair := (hs.mailbox i).pairing
      rwa [hcounter, hs.putNotWritten_of_rest hrest i, readNotGot, hat] at hpair

/-- A thread that is waited for waits itself. -/
theorem Inv.waits_of_waited (hs : Inv b size s) (hsize : 2 ≤ size) (hrest : AtRest b s)
    {i j : κ} (h : WaitsFor s i j) : ∃ k, WaitsFor s j k := by
  refine hs.waits_of_rest hrest fun hscript => ?_
  have hempty := (hs.idle_of_rest hrest hscript).queue
  have hfull := (hs.mailbox j).valid.full_iff.mp h.full
  rw [hempty, hs.size j, List.length_nil] at hfull
  omega

omit [Fintype κ] in
theorem Blocked.step {m m' : Mailbox (κ × M) κ} {t : Option κ} (hb : Blocked m t)
    {a : InteractiveTask.Action (κ × M) κ} (h : InteractiveTask.step m a = some m')
    (ha : a ≠ .syncGet) : Blocked m' t := by
  obtain ⟨p, hput⟩ := hb.putting
  have hother : ∀ {t' : Option κ} {pc : SenderPc (κ × M)}, t ≠ t' →
      Function.update m.sender t' pc t = .atSyncPut p := by
    intro t' pc hne
    rw [Function.update_of_ne hne, hput]
  cases InteractiveTask.moves_of_step h with
  | notifyMsg t' msg hidle hmay =>
      refine ⟨⟨p, hother ?_⟩, hb.full⟩
      rintro rfl
      rw [hput] at hidle
      cases hidle
  | syncPut t' msg hat hroom => exact absurd hb.full hroom
  | write t' hat =>
      refine ⟨⟨p, hother ?_⟩, hb.full⟩
      rintro rfl
      rw [hput] at hat
      cases hat
  | syncGet hat hsome => exact absurd rfl ha
  | fire hloop hidle harmed hpos => exact ⟨⟨p, hput⟩, hb.full⟩
  | read v e hat hidle hread => exact ⟨⟨p, hput⟩, hb.full⟩
  | finish msg hat hidle => exact ⟨⟨p, hput⟩, hb.full⟩

omit [Fintype κ] in
theorem WaitsFor.update {i j k : κ} (hw : WaitsFor s i j)
    {a : InteractiveTask.Action (κ × M) κ} {mailbox : Mailbox (κ × M) κ}
    (h : InteractiveTask.step (s.mailbox k) a = some mailbox) (ha : j = k → a ≠ .syncGet) :
    Blocked (Function.update s.mailbox k mailbox j) (sender i j) := by
  by_cases hk : j = k
  · subst hk
    rw [Function.update_self]
    exact Blocked.step hw h (ha rfl)
  · rw [Function.update_of_ne hk]
    exact hw

/-- A thread that waits for a thread with something to send goes on waiting. -/
theorem Inv.waitsFor_step (hs : Inv b size s) {i j : κ} (hw : WaitsFor s i j)
    (hj : s.script j ≠ []) {a : Action κ E} (h : TaskNetwork.step b s a = some u) :
    WaitsFor u i j := by
  cases moves_of_step h with
  | notifyMsg i' k msg rest mailbox hscript hmail => exact hw.update hmail fun _ => nofun
  | syncPut i' k msg rest mailbox hscript hmail => exact hw.update hmail fun _ => nofun
  | write i' k msg rest mailbox hscript hmail => exact hw.update hmail fun _ => nofun
  | receive a i' a' mailbox ha hscript hmail =>
      refine hw.update hmail fun _ => ?_
      rcases ha with ⟨-, rfl⟩ | ⟨-, rfl⟩ | ⟨-, rfl⟩ <;> exact nofun
  | syncGet i' k msg mailbox hmail hin =>
      refine hw.update hmail fun hk => ?_
      subst hk
      cases InteractiveTask.moves_of_step hmail with
      | syncGet hat hsome => exact absurd (hs.nil_of_receiving hat) hj
  | onEvent i' e hscript hloop hreactor => exact hw

theorem Inv.script_ne_nil (hs : Inv b size s) {i j : κ} (hw : WaitsFor s i j) :
    s.script i ≠ [] := by
  obtain ⟨msg, rest, hscript⟩ := hs.script_of_waits hw
  rw [hscript]
  exact List.cons_ne_nil _ _

theorem Inv.circle_step (hs : Inv b size s) {i k : κ}
    (hw : Relation.TransGen (WaitsFor s) i k) (hk : s.script k ≠ []) {a : Action κ E}
    (h : TaskNetwork.step b s a = some u) : Relation.TransGen (WaitsFor u) i k := by
  induction hw using Relation.TransGen.head_induction_on with
  | single hw => exact .single (hs.waitsFor_step hw hk h)
  | head hw hrest ih =>
      obtain ⟨l, hl, -⟩ := Relation.TransGen.head'_iff.mp hrest
      exact .head (hs.waitsFor_step hw (hs.script_ne_nil hl) h) ih

/-- If nothing happens any more, everybody has handled what he was sent, or some of the
tasks stand in a circle, each in a `notifyMsg` to the next, whose mailbox is full.  Such
a circle is never resolved, not by an event from outside either. -/
theorem idle_or_circle {size : ℕ} (hsize : 2 ≤ size) {buff : ℕ → κ × M}
    {as : List (Action κ E)} (hrun : run (TaskNetwork.step b) (start b size buff) as = some s) :
    (AtRest b s →
      (∀ i, Idle s i) ∧ (∀ i j, labelled i (s.mailbox j).handledLog = labelled j (s.asked i)) ∨
        ∃ i, Relation.TransGen (WaitsFor s) i i) ∧
    ∀ i, Relation.TransGen (WaitsFor s) i i → ∀ (bs : List (Action κ E)) u,
      run (TaskNetwork.step b) s bs = some u → Relation.TransGen (WaitsFor u) i i := by
  have hs := inv_of_run (Nat.le_of_succ_le hsize) hrun
  refine ⟨fun hrest => ?_, fun i hcircle bs u hrun' => ?_⟩
  · by_cases hall : ∀ i, s.script i = []
    · have hidle : ∀ i, Idle s i := fun i => hs.idle_of_rest hrest (hall i)
      refine .inl ⟨hidle, fun i j => ?_⟩
      rw [hs.delivery i j, (hidle j).queue, unput_of_idle fun k => hs.idle_of_nil (hall i) k,
        hall i, labelled_nil, labelled_nil, List.append_nil, List.append_nil]
    · push Not at hall
      obtain ⟨i, hi⟩ := hall
      have hnext : ∀ k, (∃ j, WaitsFor s k j) → ∃ j, WaitsFor s k j ∧ ∃ l, WaitsFor s j l := by
        rintro k ⟨j, hw⟩
        exact ⟨j, hw, hs.waits_of_waited hsize hrest hw⟩
      exact .inr (Progress.exists_cycle hnext (hs.waits_of_rest hrest hi))
  · have hinv := run_invariant
      (I := fun s => Inv b size s ∧ Relation.TransGen (WaitsFor s) i i)
      (fun s a t hs h => by
        obtain ⟨j, hj, -⟩ := Relation.TransGen.head'_iff.mp hs.2
        exact ⟨hs.1.step h, hs.1.circle_step hs.2 (hs.1.script_ne_nil hj) h⟩)
      ⟨hs, hcircle⟩ hrun'
    exact hinv.2

/-- With room for one message in each mailbox the two tasks wait for each other for ever. -/
theorem idle_or_circle_bothPut :
    ∃ s, run (TaskNetwork.step eachOther) (start eachOther 2 fun _ => (0, 0)) bothPut = some s ∧
      ∀ bs u, run (TaskNetwork.step eachOther) s bs = some u →
        Relation.TransGen (WaitsFor u) 0 0 := by
  have hrun : run (TaskNetwork.step eachOther) (start eachOther 2 fun _ => (0, 0)) bothPut =
      some _ := rfl
  refine ⟨_, rfl, (idle_or_circle (by decide) hrun).2 0 ?_⟩
  exact .head (b := 1) ⟨⟨_, rfl⟩, rfl⟩ (.single ⟨⟨_, rfl⟩, rfl⟩)

end TaskNetwork

end Banana
