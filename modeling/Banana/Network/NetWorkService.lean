import Banana.Library.Transition
import Mathlib.Data.List.Pairwise
import Mathlib.Data.Option.Basic
import Mathlib.Logic.Function.Basic

/-!
# Routing by file descriptor

The services of `network/NetWorkService.cpp` find a connection by its bare fd
number, and the system gives a number away again as soon as it is closed.
What keeps an answer from reaching the wrong connection is an order of events:
a map task puts its message into the mailbox before it drops its reference,
the fd is closed after the last reference is gone, accepted again after that,
and the new fd passes through the same mailbox.

A mailbox is the list of messages put and not yet handled, in order; that an
`InteractiveTask` handles exactly this list is the theorem about its mailbox.
Connection objects carry an identity that is never used twice.
-/

namespace Banana.NetWorkService

variable {σ κ : Type*}

/-- The messages of a service.  A `CONNECTION` message holds a handle only;
`producer` is the connection whose map task made it, which nobody can see. -/
inductive Message (κ : Type*)
  | newConnect (clientFd : ℕ)
  | connection (handle : ℕ) (producer : κ)

/-- A connection object; `closed` when its `Stream` has been destroyed. -/
structure Connection (σ : Type*) where
  handle : ℕ
  service : σ
  closed : Bool

/-- The services `σ` with their connections `κ`.  `acceptedFd` is the fd that the
accept service has yet to pass on, `unsent` and `unreleased` count the map tasks
of a connection that hold a reference before and after sending, `delivered`
lists the producer and the receiver of each delivered message. -/
structure State (σ κ : Type*) where
  isOpen : ℕ → Bool
  acceptedFd : Option ℕ
  recvMsgQueue : σ → List (Message κ)
  connectionMap : σ → ℕ → Option κ
  connection : κ → Option (Connection σ)
  unsent : κ → ℕ
  unreleased : κ → ℕ
  delivered : List (κ × κ)

inductive Action (σ κ : Type*)
  | accept (fd : ℕ)
  | notifyNewConnect (service : σ)
  | onMessage (service : σ) (fresh : κ)
  | syncPostTask (c : κ)
  | notifyMapDone (c : κ)
  | endTask (c : κ)
  | destroy (c : κ)
  | closeStream (c : κ)

def start (isOpen : ℕ → Bool) : State σ κ where
  isOpen := isOpen
  acceptedFd := none
  recvMsgQueue := fun _ => []
  connectionMap := fun _ _ => none
  connection := fun _ => none
  unsent := fun _ => 0
  unreleased := fun _ => 0
  delivered := []

section Steps

variable [DecidableEq σ] [DecidableEq κ]

def setMailbox (s : State σ κ) (service : σ) (queue : List (Message κ)) : State σ κ :=
  { s with recvMsgQueue := Function.update s.recvMsgQueue service queue }

def setEntry (s : State σ κ) (service : σ) (handle : ℕ) (entry : Option κ) : State σ κ :=
  { s with
    connectionMap := Function.update s.connectionMap service
      (Function.update (s.connectionMap service) handle entry) }

def setConnection (s : State σ κ) (c : κ) (conn : Connection σ) : State σ κ :=
  { s with connection := Function.update s.connection c (some conn) }

/-- `unordered_map::insert` keeps an entry that is there. -/
def addNewConnection (s : State σ κ) (service : σ) (handle : ℕ) (c : κ) : State σ κ :=
  match s.connectionMap service handle with
  | none => setEntry s service handle (some c)
  | some _ => s

def removeConnection (s : State σ κ) (service : σ) (handle : ℕ) : State σ κ :=
  setEntry s service handle none

/-- One message of a service.  For a new fd the callback makes a connection,
whose constructor asserts `handle_ > 0`, and adds it. -/
def onMessage (s : State σ κ) (service : σ) (fresh : κ) : Option (State σ κ) :=
  match s.recvMsgQueue service with
  | [] => none
  | .newConnect fd :: rest =>
      if 0 < fd ∧ s.connection fresh = none then
        some (addNewConnection (setConnection (setMailbox s service rest) fresh
          ⟨fd, service, false⟩) service fd fresh)
      else none
  | .connection handle producer :: rest =>
      match s.connectionMap service handle with
      | some c => some { setMailbox s service rest with
          delivered := s.delivered ++ [(producer, c)] }
      | none => some (setMailbox s service rest)

/-- The references to a connection: its entry in the map and its map tasks. -/
def useCount (s : State σ κ) (c : κ) (conn : Connection σ) : ℕ :=
  (if s.connectionMap conn.service conn.handle = some c then 1 else 0) + s.unsent c +
    s.unreleased c

/-- A callback of a connection needs its stream, so `syncPostTask` and `destroy`
run on connections that are not closed, in the map or not. -/
def step (s : State σ κ) : Action σ κ → Option (State σ κ)
  | .accept fd =>
      if s.acceptedFd = none ∧ s.isOpen fd = false then
        some { s with acceptedFd := some fd, isOpen := Function.update s.isOpen fd true }
      else none
  | .notifyNewConnect service =>
      s.acceptedFd.map fun fd =>
        { setMailbox s service (s.recvMsgQueue service ++ [.newConnect fd]) with
          acceptedFd := none }
  | .onMessage service fresh => onMessage s service fresh
  | .syncPostTask c =>
      match s.connection c with
      | some conn =>
          if conn.closed then none
          else some { s with unsent := Function.update s.unsent c (s.unsent c + 1) }
      | none => none
  | .notifyMapDone c =>
      match s.connection c with
      | some conn =>
          if 0 < s.unsent c then
            some { setMailbox s conn.service
                (s.recvMsgQueue conn.service ++ [.connection conn.handle c]) with
              unsent := Function.update s.unsent c (s.unsent c - 1)
              unreleased := Function.update s.unreleased c (s.unreleased c + 1) }
          else none
      | none => none
  | .endTask c =>
      if 0 < s.unreleased c then
        some { s with unreleased := Function.update s.unreleased c (s.unreleased c - 1) }
      else none
  | .destroy c =>
      match s.connection c with
      | some conn =>
          if conn.closed then none else some (removeConnection s conn.service conn.handle)
      | none => none
  | .closeStream c =>
      match s.connection c with
      | some conn =>
          if conn.closed = false ∧ useCount s c conn = 0 then
            some { setConnection s c { conn with closed := true } with
              isOpen := Function.update s.isOpen conn.handle false }
          else none
      | none => none

inductive Moves (s : State σ κ) : Action σ κ → State σ κ → Prop
  | accept (fd : ℕ) (hidle : s.acceptedFd = none) (hclosed : s.isOpen fd = false) :
      Moves s (.accept fd)
        { s with acceptedFd := some fd, isOpen := Function.update s.isOpen fd true }
  | notifyNewConnect (service : σ) (fd : ℕ) (hfd : s.acceptedFd = some fd) :
      Moves s (.notifyNewConnect service)
        { setMailbox s service (s.recvMsgQueue service ++ [.newConnect fd]) with
          acceptedFd := none }
  | newConnect (service : σ) (fresh : κ) (fd : ℕ) (rest : List (Message κ))
      (hqueue : s.recvMsgQueue service = .newConnect fd :: rest)
      (hfresh : s.connection fresh = none) :
      Moves s (.onMessage service fresh)
        (addNewConnection (setConnection (setMailbox s service rest) fresh
          ⟨fd, service, false⟩) service fd fresh)
  | deliver (service : σ) (fresh : κ) (handle : ℕ) (producer c : κ) (rest : List (Message κ))
      (hqueue : s.recvMsgQueue service = .connection handle producer :: rest)
      (hfind : s.connectionMap service handle = some c) :
      Moves s (.onMessage service fresh)
        { setMailbox s service rest with delivered := s.delivered ++ [(producer, c)] }
  | drop (service : σ) (fresh : κ) (handle : ℕ) (producer : κ) (rest : List (Message κ))
      (hqueue : s.recvMsgQueue service = .connection handle producer :: rest) :
      Moves s (.onMessage service fresh) (setMailbox s service rest)
  | syncPostTask (c : κ) (handle : ℕ) (service : σ)
      (hlive : s.connection c = some ⟨handle, service, false⟩) :
      Moves s (.syncPostTask c)
        { s with unsent := Function.update s.unsent c (s.unsent c + 1) }
  | notifyMapDone (c : κ) (conn : Connection σ) (hconn : s.connection c = some conn)
      (hpos : 0 < s.unsent c) :
      Moves s (.notifyMapDone c)
        { setMailbox s conn.service
            (s.recvMsgQueue conn.service ++ [.connection conn.handle c]) with
          unsent := Function.update s.unsent c (s.unsent c - 1)
          unreleased := Function.update s.unreleased c (s.unreleased c + 1) }
  | endTask (c : κ) (hpos : 0 < s.unreleased c) :
      Moves s (.endTask c)
        { s with unreleased := Function.update s.unreleased c (s.unreleased c - 1) }
  | destroy (c : κ) (handle : ℕ) (service : σ)
      (hlive : s.connection c = some ⟨handle, service, false⟩) :
      Moves s (.destroy c) (removeConnection s service handle)
  | closeStream (c : κ) (handle : ℕ) (service : σ)
      (hlive : s.connection c = some ⟨handle, service, false⟩)
      (hunused : useCount s c ⟨handle, service, false⟩ = 0) :
      Moves s (.closeStream c)
        { setConnection s c ⟨handle, service, true⟩ with
          isOpen := Function.update s.isOpen handle false }

theorem moves_of_step {s u : State σ κ} {a : Action σ κ} (h : step s a = some u) :
    Moves s a u := by
  cases a with
  | accept fd =>
      simp only [step, Option.ite_none_right_eq_some, Option.some.injEq] at h
      obtain ⟨⟨hidle, hclosed⟩, rfl⟩ := h
      exact .accept fd hidle hclosed
  | notifyNewConnect service =>
      obtain ⟨fd, hfd, rfl⟩ := Option.map_eq_some_iff.mp h
      exact .notifyNewConnect service fd hfd
  | onMessage service fresh =>
      change onMessage s service fresh = some u at h
      unfold onMessage at h
      split at h
      · simp at h
      · next fd rest hqueue =>
          simp only [Option.ite_none_right_eq_some, Option.some.injEq] at h
          obtain ⟨⟨-, hfresh⟩, rfl⟩ := h
          exact .newConnect service fresh fd rest hqueue hfresh
      · next handle producer rest hqueue =>
          cases hfind : s.connectionMap service handle with
          | some c =>
              simp only [hfind, Option.some.injEq] at h
              exact h ▸ .deliver service fresh handle producer c rest hqueue hfind
          | none =>
              simp only [hfind, Option.some.injEq] at h
              exact h ▸ .drop service fresh handle producer rest hqueue
  | syncPostTask c =>
      cases hconn : s.connection c with
      | none => simp [step, hconn] at h
      | some conn =>
          obtain ⟨handle, service, closed⟩ := conn
          cases closed with
          | true => simp [step, hconn] at h
          | false =>
              simp only [step, hconn, Bool.false_eq_true, if_false, Option.some.injEq] at h
              exact h ▸ .syncPostTask c handle service hconn
  | notifyMapDone c =>
      cases hconn : s.connection c with
      | none => simp [step, hconn] at h
      | some conn =>
          simp only [step, hconn, Option.ite_none_right_eq_some, Option.some.injEq] at h
          exact h.2 ▸ .notifyMapDone c conn hconn h.1
  | endTask c =>
      simp only [step, Option.ite_none_right_eq_some, Option.some.injEq] at h
      exact h.2 ▸ .endTask c h.1
  | destroy c =>
      cases hconn : s.connection c with
      | none => simp [step, hconn] at h
      | some conn =>
          obtain ⟨handle, service, closed⟩ := conn
          cases closed with
          | true => simp [step, hconn] at h
          | false =>
              simp only [step, hconn, Bool.false_eq_true, if_false, Option.some.injEq] at h
              exact h ▸ .destroy c handle service hconn
  | closeStream c =>
      cases hconn : s.connection c with
      | none => simp [step, hconn] at h
      | some conn =>
          obtain ⟨handle, service, closed⟩ := conn
          simp only [step, hconn, Option.ite_none_right_eq_some, Option.some.injEq] at h
          obtain ⟨⟨rfl, hunused⟩, rfl⟩ := h
          exact .closeStream c handle service hconn hunused

end Steps

/-! ## Who owns an fd -/

/-- `m'` comes behind `m` in a mailbox only if it has nothing to do with the fd
that `m` announces. -/
def NotOvertaken (m m' : Message κ) : Prop :=
  ∀ fd, m = .newConnect fd → m' ≠ .newConnect fd ∧ ∀ c, m' ≠ .connection fd c

/-- An fd is owned by the accept service, by one `NEW_CONNECT` message or by one
connection that is not closed.  A `CONNECTION` message has its producer's
handle, stands in front of every later use of it, and finds nobody else. -/
structure Inv (s : State σ κ) : Prop where
  mapped : ∀ service h c, s.connectionMap service h = some c →
    s.connection c = some ⟨h, service, false⟩
  liveOpen : ∀ c h service, s.connection c = some ⟨h, service, false⟩ → s.isOpen h = true
  distinct : ∀ c c' h service service', s.connection c = some ⟨h, service, false⟩ →
    s.connection c' = some ⟨h, service', false⟩ → c = c'
  held : ∀ c, 0 < s.unsent c + s.unreleased c →
    ∃ h service, s.connection c = some ⟨h, service, false⟩
  acceptedOpen : ∀ fd, s.acceptedFd = some fd → s.isOpen fd = true ∧
    ∀ service, .newConnect fd ∉ s.recvMsgQueue service
  acceptedFresh : ∀ fd, s.acceptedFd = some fd →
    ∀ c service, s.connection c ≠ some ⟨fd, service, false⟩
  announcedOpen : ∀ fd service, .newConnect fd ∈ s.recvMsgQueue service → s.isOpen fd = true ∧
    ∀ service', .newConnect fd ∈ s.recvMsgQueue service' → service = service'
  announcedFresh : ∀ fd service, .newConnect fd ∈ s.recvMsgQueue service →
    ∀ c service', s.connection c ≠ some ⟨fd, service', false⟩
  order : ∀ service, (s.recvMsgQueue service).Pairwise NotOvertaken
  addressed : ∀ service h c, .connection h c ∈ s.recvMsgQueue service →
    (∃ closed, s.connection c = some ⟨h, service, closed⟩) ∧
      ∀ c', s.connectionMap service h = some c' → c' = c
  delivered : ∀ p ∈ s.delivered, p.1 = p.2

theorem inv_start (isOpen : ℕ → Bool) : Inv (start isOpen : State σ κ) where
  mapped := nofun
  liveOpen := nofun
  distinct := nofun
  held _ hpos := absurd hpos (Nat.lt_irrefl 0)
  acceptedOpen := nofun
  acceptedFresh := nofun
  announcedOpen _ _ hmem := absurd hmem List.not_mem_nil
  announcedFresh _ _ hmem := absurd hmem List.not_mem_nil
  order _ := .nil
  addressed _ _ _ hmem := absurd hmem List.not_mem_nil
  delivered _ hmem := absurd hmem List.not_mem_nil

theorem Inv.key_absent {s : State σ κ} (hs : Inv s) {service : σ} {fd : ℕ}
    (hmem : .newConnect fd ∈ s.recvMsgQueue service) : s.connectionMap service fd = none := by
  cases hfind : s.connectionMap service fd with
  | none => rfl
  | some c => exact absurd (hs.mapped _ _ _ hfind) (hs.announcedFresh fd service hmem c service)

theorem Inv.own_entry {s : State σ κ} (hs : Inv s) {c c' : κ} {h : ℕ} {service service' : σ}
    (hlive : s.connection c = some ⟨h, service, false⟩)
    (hfind : s.connectionMap service' h = some c') : c' = c ∧ service' = service := by
  have hlive' := hs.mapped _ _ _ hfind
  obtain rfl := hs.distinct _ _ _ _ _ hlive' hlive
  rw [hlive] at hlive'
  simpa using hlive'.symm

theorem Inv.accept {s : State σ κ} (hs : Inv s) {fd : ℕ} (hclosed : s.isOpen fd = false) :
    Inv { s with acceptedFd := some fd, isOpen := Function.update s.isOpen fd true } := by
  have hkeep : ∀ fd', s.isOpen fd' = true → Function.update s.isOpen fd true fd' = true := by
    intro fd' hopen
    by_cases hfd : fd' = fd
    · rw [hfd, Function.update_self]
    · rwa [Function.update_of_ne hfd]
  have hnew : ∀ fd', s.isOpen fd' = true → fd ≠ fd' := by
    rintro fd' hopen rfl
    rw [hclosed] at hopen
    exact Bool.noConfusion hopen
  exact { hs with
    liveOpen := fun c h service hfind => hkeep h (hs.liveOpen c h service hfind)
    acceptedOpen := fun fd' hfd => by
      obtain rfl := Option.some.inj hfd
      exact ⟨Function.update_self _ _ _, fun service hmem =>
        hnew _ (hs.announcedOpen _ service hmem).1 rfl⟩
    acceptedFresh := fun fd' hfd c service hfind => by
      obtain rfl := Option.some.inj hfd
      exact hnew _ (hs.liveOpen c _ service hfind) rfl
    announcedOpen := fun fd' service hmem =>
      ⟨hkeep fd' (hs.announcedOpen fd' service hmem).1, (hs.announcedOpen fd' service hmem).2⟩ }

section Connections

variable [DecidableEq κ]

theorem find_setConnection {s : State σ κ} {c c' : κ} {conn conn' : Connection σ}
    (hfind : (setConnection s c conn).connection c' = some conn') :
    (c' = c ∧ conn' = conn) ∨ (c' ≠ c ∧ s.connection c' = some conn') := by
  unfold setConnection at hfind
  by_cases hc : c' = c
  · subst c'
    exact .inl ⟨rfl, by simpa using hfind.symm⟩
  · exact .inr ⟨hc, by simpa [hc] using hfind⟩

theorem setConnection_of_some {s : State σ κ} {fresh c : κ} {conn conn' : Connection σ}
    (hfresh : s.connection fresh = none) (hfind : s.connection c = some conn') :
    (setConnection s fresh conn).connection c = some conn' := by
  have hne : c ≠ fresh := by
    rintro rfl
    simp [hfresh] at hfind
  simpa [setConnection, hne] using hfind

theorem useCount_eq_zero {s : State σ κ} {c : κ} {conn : Connection σ}
    (h : useCount s c conn = 0) :
    s.connectionMap conn.service conn.handle ≠ some c ∧ s.unsent c + s.unreleased c = 0 := by
  unfold useCount at h
  split_ifs at h with hmap
  · omega
  · exact ⟨hmap, by omega⟩

theorem live_of_close {s : State σ κ} {c c' : κ} {h h' : ℕ} {service service' : σ}
    (hfind : (setConnection s c ⟨h, service, true⟩).connection c' = some ⟨h', service', false⟩) :
    c' ≠ c ∧ s.connection c' = some ⟨h', service', false⟩ := by
  rcases find_setConnection hfind with ⟨-, heq⟩ | hold
  · simp at heq
  · exact hold

theorem live_after_close {s : State σ κ} {c c' : κ} {conn conn' : Connection σ} (hne : c' ≠ c)
    (hfind : s.connection c' = some conn') :
    (setConnection s c conn).connection c' = some conn' := by
  simpa [setConnection, hne] using hfind

theorem Inv.closeStream {s : State σ κ} (hs : Inv s) {c : κ} {h : ℕ} {service : σ}
    (hlive : s.connection c = some ⟨h, service, false⟩)
    (hunused : useCount s c ⟨h, service, false⟩ = 0) :
    Inv { setConnection s c ⟨h, service, true⟩ with
      isOpen := Function.update s.isOpen h false } := by
  obtain ⟨hmap, htasks⟩ := useCount_eq_zero hunused
  have hother : ∀ fd, s.isOpen fd = true →
      (∀ service', s.connection c ≠ some ⟨fd, service', false⟩) →
      Function.update s.isOpen h false fd = true := by
    intro fd hopen hnot
    have hne : fd ≠ h := by
      rintro rfl
      exact hnot service hlive
    rwa [Function.update_of_ne hne]
  exact
  { mapped := fun service' h' c' hfind => by
      have hold := hs.mapped service' h' c' hfind
      apply live_after_close _ hold
      rintro rfl
      obtain ⟨rfl, rfl⟩ : h = h' ∧ service = service' := by simpa [hlive] using hold
      exact hmap hfind
    liveOpen := fun c' h' service' hfind => by
      obtain ⟨hne, hold⟩ := live_of_close hfind
      apply hother h' (hs.liveOpen _ _ _ hold)
      intro service'' heq
      exact hne (hs.distinct _ _ _ _ _ hold heq)
    distinct := fun c₁ c₂ h' service₁ service₂ hfind hfind' =>
      hs.distinct _ _ _ _ _ (live_of_close hfind).2 (live_of_close hfind').2
    held := fun c' hpos => by
      obtain ⟨h', service', hold⟩ := hs.held c' hpos
      refine ⟨h', service', live_after_close ?_ hold⟩
      rintro rfl
      exact absurd htasks (Nat.pos_iff_ne_zero.mp hpos)
    acceptedOpen := fun fd hfd =>
      ⟨hother fd (hs.acceptedOpen fd hfd).1 (hs.acceptedFresh fd hfd c), (hs.acceptedOpen fd hfd).2⟩
    acceptedFresh := fun fd hfd c' service' hfind =>
      hs.acceptedFresh fd hfd c' service' (live_of_close hfind).2
    announcedOpen := fun fd service₁ hmem =>
      ⟨hother fd (hs.announcedOpen fd service₁ hmem).1 (hs.announcedFresh fd service₁ hmem c),
        (hs.announcedOpen fd service₁ hmem).2⟩
    announcedFresh := fun fd service₁ hmem c' service' hfind =>
      hs.announcedFresh fd service₁ hmem c' service' (live_of_close hfind).2
    order := hs.order
    addressed := fun service' h' c' hmem => by
      obtain ⟨⟨closed, hconn⟩, hfinds⟩ := hs.addressed service' h' c' hmem
      refine ⟨?_, hfinds⟩
      by_cases hc : c' = c
      · subst c'
        obtain ⟨rfl, rfl, -⟩ : h = h' ∧ service = service' ∧ false = closed := by
          simpa [hlive] using hconn
        exact ⟨true, Function.update_self _ _ _⟩
      · exact ⟨closed, live_after_close hc hconn⟩
    delivered := hs.delivered }

end Connections

variable [DecidableEq σ]

theorem setMailbox_self (s : State σ κ) (service : σ) (queue : List (Message κ)) :
    (setMailbox s service queue).recvMsgQueue service = queue := Function.update_self _ _ _

theorem setMailbox_of_ne (s : State σ κ) {service service' : σ} (hne : service' ≠ service)
    (queue : List (Message κ)) :
    (setMailbox s service queue).recvMsgQueue service' = s.recvMsgQueue service' :=
  Function.update_of_ne hne _ _

theorem find_setEntry {s : State σ κ} {service service' : σ} {h h' : ℕ} {entry : Option κ} {c : κ}
    (hfind : (setEntry s service h entry).connectionMap service' h' = some c) :
    (service' = service ∧ h' = h ∧ entry = some c) ∨
      (¬ (service' = service ∧ h' = h) ∧ s.connectionMap service' h' = some c) := by
  unfold setEntry at hfind
  by_cases hs : service' = service
  · subst service'
    by_cases hh : h' = h
    · subst h'
      exact .inl ⟨rfl, rfl, by simpa using hfind⟩
    · exact .inr ⟨fun hboth => hh hboth.2, by simpa [hh] using hfind⟩
  · exact .inr ⟨fun hboth => hs hboth.1, by simpa [hs] using hfind⟩

theorem mem_dequeued {s : State σ κ} {service service' : σ} {m m' : Message κ}
    {rest : List (Message κ)} (hqueue : s.recvMsgQueue service = m :: rest)
    (hmem : m' ∈ (setMailbox s service rest).recvMsgQueue service') :
    m' ∈ s.recvMsgQueue service' := by
  by_cases hs : service' = service
  · subst service'
    rw [setMailbox_self] at hmem
    rw [hqueue]
    exact List.mem_cons_of_mem m hmem
  · rwa [setMailbox_of_ne s hs] at hmem

theorem mem_enqueued {s : State σ κ} {service service' : σ} {m m' : Message κ}
    (hmem : m' ∈ (setMailbox s service (s.recvMsgQueue service ++ [m])).recvMsgQueue service') :
    m' ∈ s.recvMsgQueue service' ∨ (m' = m ∧ service' = service) := by
  by_cases hs : service' = service
  · subst service'
    rw [setMailbox_self, List.mem_append, List.mem_singleton] at hmem
    exact hmem.imp_right fun h => ⟨h, rfl⟩
  · rw [setMailbox_of_ne s hs] at hmem
    exact .inl hmem

theorem Inv.dequeue {s : State σ κ} (hs : Inv s) {service : σ} {m : Message κ}
    {rest : List (Message κ)} (hqueue : s.recvMsgQueue service = m :: rest) :
    Inv (setMailbox s service rest) := by
  refine { hs with
    acceptedOpen := fun fd hfd => ?_
    announcedOpen := fun fd service₁ hmem => ?_
    announcedFresh := fun fd service' hmem =>
      hs.announcedFresh fd service' (mem_dequeued hqueue hmem)
    order := fun service' => ?_
    addressed := fun service' h c hmem => hs.addressed service' h c (mem_dequeued hqueue hmem) }
  · obtain ⟨hopen, hnot⟩ := hs.acceptedOpen fd hfd
    exact ⟨hopen, fun service' hmem => hnot service' (mem_dequeued hqueue hmem)⟩
  · obtain ⟨hopen, honly⟩ := hs.announcedOpen fd service₁ (mem_dequeued hqueue hmem)
    exact ⟨hopen, fun service₂ hmem' => honly service₂ (mem_dequeued hqueue hmem')⟩
  · by_cases hsv : service' = service
    · subst service'
      have horder := hs.order service
      rw [hqueue, List.pairwise_cons] at horder
      rw [setMailbox_self]
      exact horder.2
    · rw [setMailbox_of_ne s hsv]
      exact hs.order service'

/-- Putting a message behind a mailbox: an fd that nobody owns any more, or a
message of a live connection. -/
theorem Inv.enqueue {s : State σ κ} (hs : Inv s) {service : σ} {m : Message κ}
    (hnew : ∀ fd, m = .newConnect fd → s.isOpen fd = true ∧ s.acceptedFd ≠ some fd ∧
      (∀ service', .newConnect fd ∉ s.recvMsgQueue service') ∧
      ∀ c service', s.connection c ≠ some ⟨fd, service', false⟩)
    (hsent : ∀ h c, m = .connection h c → s.connection c = some ⟨h, service, false⟩) :
    Inv (setMailbox s service (s.recvMsgQueue service ++ [m])) := by
  refine { hs with
    acceptedOpen := fun fd hfd => ?_
    announcedOpen := fun fd service₁ hmem => ?_
    announcedFresh := fun fd service₁ hmem => ?_
    order := fun service' => ?_
    addressed := fun service' h c hmem => ?_ }
  · obtain ⟨hopen, hnot⟩ := hs.acceptedOpen fd hfd
    refine ⟨hopen, fun service' hmem => ?_⟩
    rcases mem_enqueued hmem with hold | ⟨heq, -⟩
    · exact hnot service' hold
    · exact (hnew fd heq.symm).2.1 hfd
  · rcases mem_enqueued hmem with hold | ⟨heq, rfl⟩
    · obtain ⟨hopen, honly⟩ := hs.announcedOpen fd service₁ hold
      refine ⟨hopen, fun service₂ hmem' => ?_⟩
      rcases mem_enqueued hmem' with hold' | ⟨heq', -⟩
      · exact honly service₂ hold'
      · exact absurd hold ((hnew fd heq'.symm).2.2.1 service₁)
    · refine ⟨(hnew fd heq.symm).1, fun service₂ hmem' => ?_⟩
      rcases mem_enqueued hmem' with hold' | ⟨-, rfl⟩
      · exact absurd hold' ((hnew fd heq.symm).2.2.1 service₂)
      · rfl
  · rcases mem_enqueued hmem with hold | ⟨heq, -⟩
    · exact hs.announcedFresh fd service₁ hold
    · exact (hnew fd heq.symm).2.2.2
  · by_cases hsv : service' = service
    · subst service'
      rw [setMailbox_self, List.pairwise_append]
      refine ⟨hs.order service, List.pairwise_singleton _ _, ?_⟩
      intro m₁ hmem m₂ hm₂ fd hfd
      rw [List.mem_singleton.mp hm₂]
      subst m₁
      -- The fd is announced already: it is neither new nor the handle of a live connection.
      refine ⟨fun heq => (hnew fd heq).2.2.1 service hmem, fun c heq => ?_⟩
      exact hs.announcedFresh fd service hmem c service (hsent fd c heq)
    · rw [setMailbox_of_ne s hsv]
      exact hs.order service'
  · rcases mem_enqueued hmem with hold | ⟨heq, rfl⟩
    · exact hs.addressed service' h c hold
    · have hlive := hsent h c heq.symm
      exact ⟨⟨false, hlive⟩, fun c' hfind => (hs.own_entry hlive hfind).1⟩

theorem Inv.removeConnection {s : State σ κ} (hs : Inv s) (service : σ) (handle : ℕ) :
    Inv (removeConnection s service handle) := by
  have hold : ∀ {service' h c}, (setEntry s service handle none).connectionMap service' h = some c →
      s.connectionMap service' h = some c := by
    intro service' h c hfind
    rcases find_setEntry hfind with ⟨-, -, heq⟩ | ⟨-, hold⟩
    · exact absurd heq (by simp)
    · exact hold
  refine { hs with mapped := fun service' h c hfind => hs.mapped _ _ _ (hold hfind),
                   addressed := fun service' h c hmem => ?_ }
  obtain ⟨hconn, hfinds⟩ := hs.addressed service' h c hmem
  exact ⟨hconn, fun c' hfind => hfinds c' (hold hfind)⟩

variable [DecidableEq κ]

theorem Inv.addNewConnection {s : State σ κ} (hs : Inv s) {service : σ} {fresh : κ} {fd : ℕ}
    (hfresh : s.connection fresh = none) (hopen : s.isOpen fd = true)
    (hlive : ∀ c service', s.connection c ≠ some ⟨fd, service', false⟩)
    (haccepted : s.acceptedFd ≠ some fd)
    (hannounced : ∀ service', .newConnect fd ∉ s.recvMsgQueue service')
    (hpending : ∀ c, .connection fd c ∉ s.recvMsgQueue service) :
    Inv (setEntry (setConnection s fresh ⟨fd, service, false⟩) service fd (some fresh)) where
  mapped service' h c hfind := by
    rcases find_setEntry hfind with ⟨rfl, rfl, heq⟩ | ⟨-, hold⟩
    · obtain rfl := Option.some.inj heq
      exact Function.update_self _ _ _
    · exact setConnection_of_some hfresh (hs.mapped _ _ _ hold)
  liveOpen c h service' hfind := by
    rcases find_setConnection hfind with ⟨rfl, heq⟩ | ⟨-, hold⟩
    · obtain ⟨rfl, -⟩ : h = fd ∧ service' = service := by simpa using heq
      exact hopen
    · exact hs.liveOpen _ _ _ hold
  distinct c c' h service₁ service₂ hfind hfind' := by
    rcases find_setConnection hfind with ⟨rfl, heq⟩ | ⟨-, hold⟩ <;>
      rcases find_setConnection hfind' with ⟨rfl, heq'⟩ | ⟨-, hold'⟩
    · rfl
    · obtain ⟨rfl, -⟩ : h = fd ∧ service₁ = service := by simpa using heq
      exact absurd hold' (hlive _ _)
    · obtain ⟨rfl, -⟩ : h = fd ∧ service₂ = service := by simpa using heq'
      exact absurd hold (hlive _ _)
    · exact hs.distinct _ _ _ _ _ hold hold'
  held c hpos := by
    obtain ⟨h, service', hold⟩ := hs.held c hpos
    exact ⟨h, service', setConnection_of_some hfresh hold⟩
  acceptedOpen := hs.acceptedOpen
  acceptedFresh fd' hfd' c service' hfind := by
    rcases find_setConnection hfind with ⟨rfl, heq⟩ | ⟨-, hold⟩
    · obtain ⟨rfl, -⟩ : fd' = fd ∧ service' = service := by simpa using heq
      exact haccepted hfd'
    · exact hs.acceptedFresh _ hfd' _ _ hold
  announcedOpen := hs.announcedOpen
  announcedFresh fd' service₁ hmem c service₂ hfind := by
    rcases find_setConnection hfind with ⟨rfl, heq⟩ | ⟨-, hold⟩
    · obtain ⟨rfl, -⟩ : fd' = fd ∧ service₂ = service := by simpa using heq
      exact hannounced _ hmem
    · exact hs.announcedFresh _ _ hmem _ _ hold
  order := hs.order
  addressed service' h c hmem := by
    obtain ⟨⟨closed, hconn⟩, hfinds⟩ := hs.addressed service' h c hmem
    refine ⟨⟨closed, setConnection_of_some hfresh hconn⟩, fun c' hfind => ?_⟩
    rcases find_setEntry hfind with ⟨rfl, rfl, -⟩ | ⟨-, hold⟩
    · exact absurd hmem (hpending c)
    · exact hfinds c' hold
  delivered := hs.delivered

theorem Inv.step {s u : State σ κ} {a : Action σ κ} (hs : Inv s)
    (h : NetWorkService.step s a = some u) : Inv u := by
  cases moves_of_step h with
  | accept fd _ hclosed => exact hs.accept hclosed
  | notifyNewConnect service fd hfd =>
      obtain ⟨hopen, hnot⟩ := hs.acceptedOpen fd hfd
      have htaken : Inv { s with acceptedFd := none } :=
        { hs with acceptedOpen := nofun, acceptedFresh := nofun }
      apply htaken.enqueue
      · rintro fd' heq
        obtain rfl := Message.newConnect.inj heq
        exact ⟨hopen, nofun, hnot, hs.acceptedFresh fd hfd⟩
      · exact fun h c heq => absurd heq (by simp)
  | newConnect service fresh fd rest hqueue hfresh =>
      have hmem : .newConnect fd ∈ s.recvMsgQueue service := by
        rw [hqueue]
        exact List.mem_cons_self
      have horder := hs.order service
      rw [hqueue, List.pairwise_cons] at horder
      have hrest : ∀ m ∈ rest, m ≠ .newConnect fd ∧ ∀ c, m ≠ .connection fd c :=
        fun m hm => horder.1 m hm fd rfl
      have hout : (setMailbox s service rest).recvMsgQueue service = rest := setMailbox_self s _ _
      have habsent := hs.key_absent hmem
      rw [NetWorkService.addNewConnection]
      change Inv (match s.connectionMap service fd with
        | none => setEntry _ service fd (some fresh)
        | some _ => _)
      rw [habsent]
      apply (hs.dequeue hqueue).addNewConnection hfresh (hs.announcedOpen fd service hmem).1
        (hs.announcedFresh fd service hmem)
      · exact fun hfd => (hs.acceptedOpen fd hfd).2 service hmem
      · intro service' hmem'
        obtain rfl := (hs.announcedOpen fd service hmem).2 service' (mem_dequeued hqueue hmem')
        rw [hout] at hmem'
        exact (hrest _ hmem').1 rfl
      · intro c hmem'
        rw [hout] at hmem'
        exact (hrest _ hmem').2 c rfl
  | deliver service fresh handle producer c rest hqueue hfind =>
      have hown : c = producer := by
        apply (hs.addressed service handle producer _).2 c hfind
        rw [hqueue]
        exact List.mem_cons_self
      refine { hs.dequeue hqueue with delivered := ?_ }
      intro p hp
      rcases List.mem_append.mp hp with hold | hnew
      · exact hs.delivered p hold
      · rw [List.mem_singleton.mp hnew, hown]
  | drop service fresh handle producer rest hqueue => exact hs.dequeue hqueue
  | syncPostTask c handle service hlive =>
      refine { hs with held := ?_ }
      intro c' hpos
      by_cases hc : c' = c
      · exact ⟨handle, service, hc ▸ hlive⟩
      · apply hs.held c'
        simpa [hc] using hpos
  | notifyMapDone c conn hconn hpos =>
      obtain ⟨handle, service, hlive⟩ := hs.held c (by omega)
      obtain rfl : conn = ⟨handle, service, false⟩ :=
        Option.some.inj (hconn.symm.trans hlive)
      have hsent : Inv (setMailbox s service
          (s.recvMsgQueue service ++ [.connection handle c])) := by
        apply hs.enqueue
        · exact fun fd heq => absurd heq (by simp)
        · rintro h' c' heq
          obtain ⟨rfl, rfl⟩ : handle = h' ∧ c = c' := by simpa using heq
          exact hlive
      refine { hsent with held := ?_ }
      intro c' hpos'
      by_cases hc : c' = c
      · exact ⟨handle, service, hc ▸ hlive⟩
      · apply hs.held c'
        simpa [hc] using hpos'
  | endTask c hpos =>
      refine { hs with held := ?_ }
      intro c' hpos'
      by_cases hc : c' = c
      · subst c'
        exact hs.held c (by omega)
      · apply hs.held c'
        simpa [hc] using hpos'
  | destroy c handle service hlive => exact hs.removeConnection service handle
  | closeStream c handle service hlive hunused => exact hs.closeStream hlive hunused

/-- Every message that is delivered reaches the connection whose map task made
it; the map holds live connections under their own fd; a new fd finds its key
free; and a connection erases no entry but its own. -/
theorem no_cross_talk (isOpen : ℕ → Bool) {as : List (Action σ κ)} {s : State σ κ}
    (hrun : Transition.run step (start isOpen) as = some s) :
    (∀ p ∈ s.delivered, p.1 = p.2) ∧
      (∀ service h c, s.connectionMap service h = some c →
        s.connection c = some ⟨h, service, false⟩ ∧ s.isOpen h = true) ∧
      (∀ service fd rest, s.recvMsgQueue service = .newConnect fd :: rest →
        s.connectionMap service fd = none) ∧
      (∀ c u, step s (.destroy c) = some u → ∀ service h c',
        s.connectionMap service h = some c' → c' ≠ c → u.connectionMap service h = some c') := by
  have hs : Inv s := Transition.run_invariant (fun _ _ _ hv h => hv.step h)
    (inv_start isOpen) hrun
  refine ⟨hs.delivered, ?_, ?_, ?_⟩
  · intro service h c hfind
    have hlive := hs.mapped service h c hfind
    exact ⟨hlive, hs.liveOpen c h service hlive⟩
  · intro service fd rest hqueue
    apply hs.key_absent
    rw [hqueue]
    exact List.mem_cons_self
  · intro c u h service h' c' hfind hne
    cases moves_of_step h with
    | destroy _ handle service' hlive =>
        have hkey : ¬ (service = service' ∧ h' = handle) := by
          rintro ⟨rfl, rfl⟩
          exact hne (hs.own_entry hlive hfind).1
        by_cases hsv : service = service'
        · subst service'
          have hh : h' ≠ handle := fun heq => hkey ⟨rfl, heq⟩
          simpa [removeConnection, setEntry, hh] using hfind
        · simpa [removeConnection, setEntry, hsv] using hfind

/-- Connection 0 on fd 5 posts two map tasks and is destroyed; both answer, the
fd is closed and handed out again, and connection 1 gets neither answer. -/
def reusedFd : List (Action (Fin 1) (Fin 2)) :=
  [.accept 5, .notifyNewConnect 0, .onMessage 0 0, .syncPostTask 0, .syncPostTask 0,
    .syncPostTask 0, .notifyMapDone 0, .onMessage 0 0, .destroy 0, .notifyMapDone 0,
    .notifyMapDone 0, .endTask 0, .endTask 0, .endTask 0, .closeStream 0, .accept 5,
    .notifyNewConnect 0, .onMessage 0 0, .onMessage 0 0, .onMessage 0 1]

theorem no_cross_talk_reusedFd :
    ∃ s : State (Fin 1) (Fin 2),
      Transition.run step (start fun fd => decide (fd < 5)) reusedFd = some s ∧
      s.delivered = [(0, 0)] ∧ s.connectionMap 0 5 = some 1 ∧ ∀ p ∈ s.delivered, p.1 = p.2 := by
  refine ⟨_, rfl, rfl, rfl, ?_⟩
  exact (@no_cross_talk (Fin 1) (Fin 2) _ _ (fun fd => decide (fd < 5)) reusedFd _ rfl).1

end Banana.NetWorkService
