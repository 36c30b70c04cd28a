import Banana.Network.LibeventReactor

/-!
# The bounds of the event table

`initReactor(maxFds)` allocates a table of `maxFds` entries, and five functions
use an fd as the index of an entry.  They refuse a negative fd by an assertion
and compare no fd with `maxFds`, which `InteractiveTask::start` sets to 60000.
So what keeps an index inside is that the fds are small.

Here the calls of libevent may fail.  After an access outside the table nothing
is known, and the run ends.
-/

namespace Banana.LibeventReactor

open Transition

variable {Cb : Type*}

/-- `MAX_CLIENT_NUM` of `InteractiveTask::start`. -/
def maxClientNum : ℕ := 60000

inductive Call (Cb : Type*)
  | addEventHandler (lib : Libevent) (fd : ℤ) (events : BitVec 16) (cb : Option Cb)
  | enableEvent (fd : ℤ) (events : BitVec 16)
  | disableEvent (fd : ℤ) (events : BitVec 16)
  | removeEventHandler (fd : ℤ) (events : BitVec 16)
  | onEvent (fd : ℤ) (d : Direction)

namespace Call

def fd : Call Cb → ℤ
  | addEventHandler _ fd _ _ => fd
  | enableEvent fd _ => fd
  | disableEvent fd _ => fd
  | removeEventHandler fd _ => fd
  | onEvent fd _ => fd

/-- The value returned; `__onEvent` returns none. -/
def returned (r : Reactor Cb) : Call Cb → Bool
  | addEventHandler lib fd events cb => (r.addEventHandler lib fd events cb).1
  | _ => true

def after (r : Reactor Cb) : Call Cb → Reactor Cb
  | addEventHandler lib fd events cb => (r.addEventHandler lib fd events cb).2
  | enableEvent fd events => r.enableEvent fd events
  | disableEvent fd events => r.disableEvent fd events
  | removeEventHandler fd events => r.removeEventHandler fd events
  | onEvent fd d => r.setSlot fd d (r.slots fd d).fire

def indexOf (fd : ℤ) (events : BitVec 16) (d : Direction) : List ℤ :=
  if Wants events d then [fd] else []

/-- The indices used on `pEventBundleMap_`, in order. -/
def indices (r : Reactor Cb) : Call Cb → List ℤ
  | addEventHandler lib fd events cb =>
      match r.addAccept lib events cb with
      | (false, _) => []
      | (true, r) =>
          indexOf fd events .read ++
            match r.addDirection lib .read fd events cb with
            | (false, _) => []
            | (true, _) => indexOf fd events .write
  | enableEvent fd events => indexOf fd events .write ++ indexOf fd events .read
  | disableEvent fd events => indexOf fd events .read ++ indexOf fd events .write
  | removeEventHandler fd events => indexOf fd events .read ++ indexOf fd events .write
  | onEvent fd _ => [fd]

def InTable (r : Reactor Cb) (i : ℤ) : Prop := 0 ≤ i ∧ i < r.maxFds

instance (r : Reactor Cb) (i : ℤ) : Decidable (InTable r i) :=
  inferInstanceAs (Decidable (0 ≤ i ∧ i < r.maxFds))

/-- Every index lies in the table, or the call is refused before the table is
touched. -/
def StaysInTable (r : Reactor Cb) (c : Call Cb) : Prop :=
  (∀ i ∈ c.indices r, InTable r i) ∨ (c.returned r = false ∧ c.indices r = [])

/-- The event loop fires pending events only; the other functions assert that the fd
is not negative. -/
def Enabled (r : Reactor Cb) : Call Cb → Prop
  | onEvent fd d => (r.slots fd d).event = some true
  | c => 0 ≤ c.fd

instance (r : Reactor Cb) : (c : Call Cb) → Decidable (c.Enabled r)
  | onEvent fd d => inferInstanceAs (Decidable ((r.slots fd d).event = some true))
  | addEventHandler _ fd _ _ => inferInstanceAs (Decidable (0 ≤ fd))
  | enableEvent fd _ => inferInstanceAs (Decidable (0 ≤ fd))
  | disableEvent fd _ => inferInstanceAs (Decidable (0 ≤ fd))
  | removeEventHandler fd _ => inferInstanceAs (Decidable (0 ≤ fd))

/-- The condition on a call: where it asks for `EVENT_READ` or `EVENT_WRITE`, the fd is
less than `maxFds`; unless it asks for the first listener, and that cannot be made. -/
def FdFits (r : Reactor Cb) : Call Cb → Prop
  | addEventHandler lib fd events _ =>
      (events &&& eventAccept ≠ 0 ∧ r.acceptCallback = none → lib.listenerNew = true) →
        (∃ d, Wants events d) → fd < r.maxFds
  | enableEvent fd events => (∃ d, Wants events d) → fd < r.maxFds
  | disableEvent fd events => (∃ d, Wants events d) → fd < r.maxFds
  | removeEventHandler fd events => (∃ d, Wants events d) → fd < r.maxFds
  | onEvent _ _ => True

theorem mem_indexOf_iff {fd i : ℤ} {events : BitVec 16} {d : Direction} :
    i ∈ indexOf fd events d ↔ i = fd ∧ Wants events d := by
  rw [indexOf]
  split_ifs with hwants <;> simp [hwants]

theorem mem_indexOf_append_iff {fd i : ℤ} {events : BitVec 16} {d d' : Direction}
    (hne : d ≠ d') :
    i ∈ indexOf fd events d ++ indexOf fd events d' ↔ i = fd ∧ ∃ d, Wants events d := by
  rw [List.mem_append, mem_indexOf_iff, mem_indexOf_iff]
  constructor
  · rintro (⟨rfl, hwants⟩ | ⟨rfl, hwants⟩)
    · exact ⟨rfl, d, hwants⟩
    · exact ⟨rfl, d', hwants⟩
  · rintro ⟨rfl, d₀, hwants⟩
    cases d <;> cases d' <;> cases d₀ <;> simp_all

theorem addAccept_eq_true_iff {r : Reactor Cb} {lib : Libevent} {events : BitVec 16}
    {cb : Option Cb} :
    (r.addAccept lib events cb).1 = true ↔
      (events &&& eventAccept ≠ 0 ∧ r.acceptCallback = none → lib.listenerNew = true) := by
  unfold Reactor.addAccept
  split_ifs with hfirst
  · exact ⟨fun hnew _ => hnew, fun hnew => hnew hfirst⟩
  · exact iff_of_true rfl fun h => absurd h hfirst

/-- `addEventHandler` uses no index when the listener fails, and its fd otherwise. -/
theorem mem_indices_addEventHandler_iff {r : Reactor Cb} {lib : Libevent} {fd i : ℤ}
    {events : BitVec 16} {cb : Option Cb} :
    i ∈ (addEventHandler lib fd events cb).indices r ↔
      i = fd ∧ (r.addAccept lib events cb).1 = true ∧ ∃ d, Wants events d := by
  rw [indices]
  rcases r.addAccept lib events cb with ⟨ok, r'⟩
  cases ok with
  | false => simp
  | true =>
      by_cases hread : Wants events .read
      · have hmem : ∀ rest : List ℤ, (∀ j ∈ rest, j = fd) →
            (i ∈ indexOf fd events .read ++ rest ↔ i = fd) := by
          intro rest hrest
          rw [List.mem_append, mem_indexOf_iff]
          exact ⟨fun h => h.elim And.left (hrest i), fun h => .inl ⟨h, hread⟩⟩
        change i ∈ indexOf fd events .read ++ _ ↔ i = fd ∧ true = true ∧ ∃ d, Wants events d
        rw [hmem]
        · exact ⟨fun h => ⟨h, rfl, .read, hread⟩, And.left⟩
        · rcases r'.addDirection lib .read fd events cb with ⟨ok, _⟩
          cases ok with
          | false => exact fun j hj => absurd hj List.not_mem_nil
          | true => exact fun j hj => (mem_indexOf_iff.mp hj).1
      · have hskip : r'.addDirection lib .read fd events cb = (true, r') := if_neg hread
        simp only [hskip]
        rw [mem_indexOf_append_iff (by decide)]
        simp

/-- A call uses its own fd or nothing. -/
theorem staysInTable_iff {r : Reactor Cb} {c : Call Cb} {p : Prop}
    (hindices : ∀ i, i ∈ c.indices r ↔ i = c.fd ∧ p) :
    c.StaysInTable r ↔ (p → InTable r c.fd) := by
  constructor
  · rintro (hall | ⟨-, hnil⟩) hp
    · exact hall c.fd ((hindices _).mpr ⟨rfl, hp⟩)
    · have hmem := (hindices c.fd).mpr ⟨rfl, hp⟩
      rw [hnil] at hmem
      exact absurd hmem List.not_mem_nil
  · intro hall
    refine .inl fun i hi => ?_
    obtain ⟨rfl, hp⟩ := (hindices i).mp hi
    exact hall hp

end Call

/-- `overrun` says that an index outside the table has been used. -/
structure Table (Cb : Type*) where
  reactor : Reactor Cb
  overrun : Bool

namespace Table

/-- The reactor after `initReactor`. -/
def start (maxFds : ℕ) : Table Cb := ⟨.init maxFds, false⟩

def step (s : Table Cb) (c : Call Cb) : Option (Table Cb) :=
  if s.overrun = false ∧ c.Enabled s.reactor then
    if ∀ i ∈ c.indices s.reactor, Call.InTable s.reactor i then
      some ⟨c.after s.reactor, false⟩
    else some ⟨s.reactor, true⟩
  else none

end Table

/-! ## Events are pending in the table only -/

theorem addAccept_slots (r : Reactor Cb) (lib : Libevent) (events : BitVec 16)
    (cb : Option Cb) :
    (r.addAccept lib events cb).2.slots = r.slots ∧
      (r.addAccept lib events cb).2.maxFds = r.maxFds := by
  unfold Reactor.addAccept
  split_ifs <;> exact ⟨rfl, rfl⟩

theorem addDirection_frame (r : Reactor Cb) (lib : Libevent) (d : Direction) (fd : ℤ)
    (events : BitVec 16) (cb : Option Cb) :
    (r.addDirection lib d fd events cb).2.maxFds = r.maxFds ∧
      ∀ fd' d', fd' ≠ fd ∨ d' ≠ d ∨ ¬ Wants events d →
        (r.addDirection lib d fd events cb).2.slots fd' d' = r.slots fd' d' := by
  unfold Reactor.addDirection
  split_ifs with hwants
  · refine ⟨rfl, fun fd' d' hother => ?_⟩
    rw [setSlot_slots, if_neg]
    rintro ⟨rfl, rfl⟩
    rcases hother with hfd | hd | hnot
    · exact hfd rfl
    · exact hd rfl
    · exact hnot hwants
  · exact ⟨rfl, fun _ _ _ => rfl⟩

/-- Where `addEventHandler` returns. -/
inductive Adds (r : Reactor Cb) (lib : Libevent) (fd : ℤ) (events : BitVec 16)
    (cb : Option Cb) : Bool × Reactor Cb → Prop
  | atListener (haccept : (r.addAccept lib events cb).1 = false) :
      Adds r lib fd events cb (false, (r.addAccept lib events cb).2)
  | atRead (haccept : (r.addAccept lib events cb).1 = true)
      (hread : ((r.addAccept lib events cb).2.addDirection lib .read fd events cb).1 = false) :
      Adds r lib fd events cb
        (false, ((r.addAccept lib events cb).2.addDirection lib .read fd events cb).2)
  | atWrite (haccept : (r.addAccept lib events cb).1 = true)
      (hread : ((r.addAccept lib events cb).2.addDirection lib .read fd events cb).1 = true) :
      Adds r lib fd events cb
        (((r.addAccept lib events cb).2.addDirection lib .read fd events cb).2.addDirection
          lib .write fd events cb)

theorem adds (r : Reactor Cb) (lib : Libevent) (fd : ℤ) (events : BitVec 16)
    (cb : Option Cb) : Adds r lib fd events cb (r.addEventHandler lib fd events cb) := by
  rw [Reactor.addEventHandler]
  rcases haccept : r.addAccept lib events cb with ⟨ok, r'⟩
  cases ok with
  | false =>
      have hadds := @Adds.atListener Cb r lib fd events cb (by rw [haccept])
      rwa [haccept] at hadds
  | true =>
      rcases hread : r'.addDirection lib .read fd events cb with ⟨ok, r''⟩
      cases ok with
      | false =>
          have hadds := @Adds.atRead Cb r lib fd events cb (by rw [haccept])
            (by rw [haccept, hread])
          rw [haccept] at hadds
          simp only [hread] at hadds ⊢
          exact hadds
      | true =>
          have hadds := @Adds.atWrite Cb r lib fd events cb (by rw [haccept])
            (by rw [haccept, hread])
          rw [haccept] at hadds
          simp only [hread] at hadds ⊢
          exact hadds

/-- `addEventHandler` changes slots of its own fd, in directions it was asked for, and
only behind the listener. -/
theorem addEventHandler_frame (r : Reactor Cb) (lib : Libevent) (fd : ℤ) (events : BitVec 16)
    (cb : Option Cb) :
    (r.addEventHandler lib fd events cb).2.maxFds = r.maxFds ∧
      ∀ fd' d', fd' ≠ fd ∨ (r.addAccept lib events cb).1 = false ∨ ¬ Wants events d' →
        (r.addEventHandler lib fd events cb).2.slots fd' d' = r.slots fd' d' := by
  obtain ⟨hslots, hmax⟩ := addAccept_slots r lib events cb
  obtain ⟨hmaxRead, hread⟩ :=
    addDirection_frame (r.addAccept lib events cb).2 lib .read fd events cb
  have hadds := adds r lib fd events cb
  generalize r.addEventHandler lib fd events cb = out at hadds
  cases hadds with
  | atListener => exact ⟨hmax, fun fd' d' _ => by rw [hslots]⟩
  | atRead haccept =>
      refine ⟨hmaxRead.trans hmax, fun fd' d' hother => ?_⟩
      rw [← hslots]
      apply hread
      rcases hother with hfd | hfail | hnot
      · exact .inl hfd
      · simp [haccept] at hfail
      · by_cases hd : d' = .read
        · exact .inr (.inr (hd ▸ hnot))
        · exact .inr (.inl hd)
  | atWrite haccept =>
      obtain ⟨hmaxWrite, hwrite⟩ := addDirection_frame
        ((r.addAccept lib events cb).2.addDirection lib .read fd events cb).2
        lib .write fd events cb
      refine ⟨hmaxWrite.trans (hmaxRead.trans hmax), fun fd' d' hother => ?_⟩
      have hdirections : ∀ d, fd' ≠ fd ∨ d' ≠ d ∨ ¬ Wants events d := by
        intro d
        rcases hother with hfd | hfail | hnot
        · exact .inl hfd
        · simp [haccept] at hfail
        · by_cases hd : d' = d
          · exact .inr (.inr (hd ▸ hnot))
          · exact .inr (.inl hd)
      rw [hwrite _ _ (hdirections .write), hread _ _ (hdirections .read), hslots]

theorem Call.after_maxFds (r : Reactor Cb) (c : Call Cb) : (c.after r).maxFds = r.maxFds := by
  cases c with
  | addEventHandler lib fd events cb => exact (addEventHandler_frame r lib fd events cb).1
  | _ => rfl

/-- An event is pending after a call if it was before, or if the call has used its
entry. -/
theorem Call.pending_after {r : Reactor Cb} {c : Call Cb} {fd : ℤ} {d : Direction}
    (h : ((c.after r).slots fd d).event = some true) :
    (r.slots fd d).event = some true ∨ fd ∈ c.indices r := by
  have hwanted : ∀ {f : EventSlot Cb → EventSlot Cb} {fd' : ℤ} {events : BitVec 16},
      ((Reactor.onWanted f r fd' events).slots fd d).event = some true →
        (r.slots fd d).event = some true ∨ fd = fd' ∧ Wants events d := by
    intro f fd' events h
    by_cases hsame : fd = fd' ∧ Wants events d
    · exact .inr hsame
    · simp only [Reactor.onWanted, if_neg hsame] at h
      exact .inl h
  cases c with
  | addEventHandler lib fd' events cb =>
      by_cases hother : fd ≠ fd' ∨ (r.addAccept lib events cb).1 = false ∨ ¬ Wants events d
      · left
        rwa [Call.after, (addEventHandler_frame r lib fd' events cb).2 fd d hother] at h
      · simp only [not_or, not_not, Bool.not_eq_false] at hother
        exact .inr (Call.mem_indices_addEventHandler_iff.mpr
          ⟨hother.1, hother.2.1, d, hother.2.2⟩)
  | enableEvent fd' events =>
      exact (hwanted h).imp_right fun hsame =>
        (Call.mem_indexOf_append_iff (by decide)).mpr ⟨hsame.1, d, hsame.2⟩
  | disableEvent fd' events =>
      exact (hwanted h).imp_right fun hsame =>
        (Call.mem_indexOf_append_iff (by decide)).mpr ⟨hsame.1, d, hsame.2⟩
  | removeEventHandler fd' events =>
      exact (hwanted h).imp_right fun hsame =>
        (Call.mem_indexOf_append_iff (by decide)).mpr ⟨hsame.1, d, hsame.2⟩
  | onEvent fd' d' =>
      by_cases hfd : fd = fd'
      · exact .inr (by rw [Call.indices, hfd]; exact List.mem_cons_self)
      · left
        rwa [Call.after, setSlot_slots, if_neg fun hboth => hfd hboth.1] at h

namespace Table

/-- As long as no index has been outside. -/
def Inside (s : Table Cb) : Prop :=
  s.overrun = false → ∀ fd d, (s.reactor.slots fd d).event = some true →
    Call.InTable s.reactor fd

theorem inside_start (maxFds : ℕ) : Inside (start maxFds : Table Cb) := by
  intro _ fd d hpending
  simp [start, Reactor.init, EventSlot.empty] at hpending

theorem Inside.step {s t : Table Cb} {c : Call Cb} (hs : s.Inside) (h : s.step c = some t) :
    t.Inside ∧ t.reactor.maxFds = s.reactor.maxFds := by
  simp only [Table.step, Option.ite_none_right_eq_some] at h
  obtain ⟨⟨hover, -⟩, h⟩ := h
  split_ifs at h with hall
  · rw [← Option.some.inj h]
    have hmax := Call.after_maxFds s.reactor c
    refine ⟨fun _ fd d hpending => ?_, hmax⟩
    change 0 ≤ fd ∧ fd < (c.after s.reactor).maxFds
    rw [hmax]
    rcases Call.pending_after hpending with hbefore | hused
    · exact hs hover fd d hbefore
    · exact hall fd hused
  · rw [← Option.some.inj h]
    exact ⟨nofun, rfl⟩

theorem Inside.staysInTable_iff {s t : Table Cb} {c : Call Cb} (hs : s.Inside)
    (h : s.step c = some t) : c.StaysInTable s.reactor ↔ c.FdFits s.reactor := by
  simp only [Table.step, Option.ite_none_right_eq_some] at h
  obtain ⟨⟨hover, henabled⟩, -⟩ := h
  cases c with
  | addEventHandler lib fd events cb =>
      rw [Call.staysInTable_iff fun i => Call.mem_indices_addEventHandler_iff]
      exact ⟨fun hall hmade hwants => (hall ⟨Call.addAccept_eq_true_iff.mpr hmade, hwants⟩).2,
        fun hall hp => ⟨henabled, hall (Call.addAccept_eq_true_iff.mp hp.1) hp.2⟩⟩
  | enableEvent fd events =>
      rw [Call.staysInTable_iff fun i => Call.mem_indexOf_append_iff (by decide)]
      exact ⟨fun hall hwants => (hall hwants).2, fun hall hwants => ⟨henabled, hall hwants⟩⟩
  | disableEvent fd events =>
      rw [Call.staysInTable_iff fun i => Call.mem_indexOf_append_iff (by decide)]
      exact ⟨fun hall hwants => (hall hwants).2, fun hall hwants => ⟨henabled, hall hwants⟩⟩
  | removeEventHandler fd events =>
      rw [Call.staysInTable_iff fun i => Call.mem_indexOf_append_iff (by decide)]
      exact ⟨fun hall hwants => (hall hwants).2, fun hall hwants => ⟨henabled, hall hwants⟩⟩
  | onEvent fd d =>
      refine iff_of_true (.inl fun i hi => ?_) trivial
      rw [List.mem_singleton.mp hi]
      exact hs hover fd d henabled

end Table

/-- In a run of the reactor, whichever calls of libevent fail, every index used lies
in the table exactly when every fd that is added, enabled, disabled or removed for
reading or writing is below `maxFds`.  It does when the process has no fd from
`maxFds` on. -/
theorem staysInTable_iff_fdFits {maxFds : ℕ} {cs : List (Call Cb)} {s : Table Cb}
    (hrun : run Table.step (Table.start maxFds) cs = some s) :
    (Along (fun t c => c.StaysInTable t.reactor) Table.step (Table.start maxFds) cs ↔
      Along (fun t c => c.FdFits t.reactor) Table.step (Table.start maxFds) cs) ∧
      ((∀ c ∈ cs, c.fd < maxFds) →
        Along (fun t c => c.StaysInTable t.reactor) Table.step (Table.start maxFds) cs) := by
  have hinside : ∀ (t : Table Cb) c u, t.Inside ∧ t.reactor.maxFds = maxFds →
      Table.step t c = some u → u.Inside ∧ u.reactor.maxFds = maxFds := by
    rintro t c u ⟨ht, hmax⟩ h
    obtain ⟨hu, hmax'⟩ := ht.step h
    exact ⟨hu, hmax'.trans hmax⟩
  have hstart : (Table.start maxFds : Table Cb).Inside ∧
      (Table.start maxFds : Table Cb).reactor.maxFds = maxFds :=
    ⟨Table.inside_start maxFds, rfl⟩
  have hiff := along_congr hinside (fun t c u ht h => ht.1.staysInTable_iff h) hstart hrun
  refine ⟨hiff, fun hfds => hiff.mpr (along_of_forall hinside (fun t c ht hlt => ?_) hstart hfds)⟩
  rw [← ht.2] at hlt
  cases c with
  | addEventHandler lib fd events cb => exact fun _ _ => hlt
  | onEvent fd d => trivial
  | _ => exact fun _ => hlt

/-- A read handler for an fd of the first connections. -/
def lowFd : List (Call ℕ) :=
  [.addEventHandler .succeeds 59999 eventRead (some 1), .onEvent 59999 .read,
    .removeEventHandler 59999 eventRead]

theorem staysInTable_iff_fdFits_lowFd :
    ∃ s : Table ℕ, run Table.step (Table.start maxClientNum) lowFd = some s ∧
      Along (fun t c => c.StaysInTable t.reactor) Table.step (Table.start maxClientNum) lowFd := by
  obtain ⟨s, hrun⟩ : ∃ s : Table ℕ, run Table.step (Table.start maxClientNum) lowFd = some s :=
    ⟨_, rfl⟩
  refine ⟨s, hrun, (staysInTable_iff_fdFits hrun).2 ?_⟩
  decide

/-- The fd 60000, which a process with a limit of 100000 may get. -/
theorem not_staysInTable_highFd :
    ∃ s : Table ℕ, run Table.step (Table.start maxClientNum)
        [.addEventHandler .succeeds 60000 eventRead (some 1)] = some s ∧ s.overrun = true ∧
      ¬ Along (fun t c => c.StaysInTable t.reactor) Table.step (Table.start maxClientNum)
        [(.addEventHandler .succeeds 60000 eventRead (some 1) : Call ℕ)] := by
  refine ⟨_, rfl, rfl, ?_⟩
  rintro ⟨hstays | ⟨hrefused, -⟩, -⟩
  · have hin := hstays 60000 (by decide)
    exact absurd hin (by decide)
  · exact absurd hrefused (by decide)

end Banana.LibeventReactor
