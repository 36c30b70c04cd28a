import Banana.Library.Transition
import Mathlib.Data.List.Basic
import Mathlib.Logic.Function.Basic

/-!
# MessageCenter::Instance

The double-checked creation of the registry, one load, lock operation,
construction or store a step, by any number of threads.  `pMessageCenter_` is
the list of its stores, its modification order; a load may return any of them
from the one this thread has seen on.  A store is a release: it carries the
constructions that its thread has seen completed, and a load that returns it
acquires them.  The mutex hands over what its last holder had seen.
-/

namespace Banana.MessageCenterInstance

open Transition

/-- What a thread has seen: a place in the modification order of
`pMessageCenter_`, and completed constructions. -/
structure Seen where
  newest : ℕ
  completed : List ℕ

def Seen.join (a b : Seen) : Seen := ⟨max a.newest b.newest, a.completed ++ b.completed⟩

/-- A store of `pMessageCenter_`; a pointer is the number of its allocation. -/
structure Store where
  pointer : Option ℕ
  released : List ℕ

/-- Where a thread is in `Instance`; `atReturn` and `atUnlock` hold its `pMsgCenter`. -/
inductive Pc
  | idle
  | atLoad
  | atLock
  | atSecondLoad
  | atNew
  | inNew (p : ℕ)
  | atStore (p : ℕ)
  | atUnlock (pMsgCenter : Option ℕ)
  | atReturn (pMsgCenter : Option ℕ)
  deriving DecidableEq

/-- The statics of the class, and the objects: how many have been allocated and which
constructions have completed. -/
structure Memory where
  pMessageCenter : List Store
  allocated : ℕ
  constructed : List ℕ

variable {τ : Type*}

/-- `mtxSeen` is what the last holder of `mtx_` had seen at its unlock. -/
structure State (τ : Type*) where
  memory : Memory
  lockedBy : Option τ
  mtxSeen : Seen
  pc : τ → Pc
  seen : τ → Seen

inductive Action (τ : Type*)
  | call (t : τ)
  | load (t : τ) (i : ℕ)
  | lock (t : τ)
  | secondLoad (t : τ) (i : ℕ)
  | allocate (t : τ)
  | construct (t : τ)
  | store (t : τ)
  | unlock (t : τ)
  | ret (t : τ)

def start : State τ where
  memory := ⟨[⟨none, []⟩], 0, []⟩
  lockedBy := none
  mtxSeen := ⟨0, []⟩
  pc := fun _ => .idle
  seen := fun _ => ⟨0, []⟩

/-- What an acquire load that returns the `i`-th store leaves its thread with. -/
def Seen.acquire (seen : Seen) (i : ℕ) (store : Store) : Seen :=
  ⟨i, seen.completed ++ store.released⟩

section Step

variable [DecidableEq τ]

def State.move (s : State τ) (t : τ) (pc : Pc) (seen : Seen) : State τ :=
  { s with pc := Function.update s.pc t pc, seen := Function.update s.seen t seen }

def step (s : State τ) : Action τ → Option (State τ)
  | .call t => if s.pc t = .idle then some (s.move t .atLoad (s.seen t)) else none
  | .load t i =>
      match s.pc t, s.memory.pMessageCenter[i]? with
      | .atLoad, some store =>
          if (s.seen t).newest ≤ i then
            some (s.move t (if store.pointer = none then .atLock else .atReturn store.pointer)
              ((s.seen t).acquire i store))
          else none
      | _, _ => none
  | .lock t =>
      if s.pc t = .atLock ∧ s.lockedBy = none then
        some { s.move t .atSecondLoad ((s.seen t).join s.mtxSeen) with lockedBy := some t }
      else none
  | .secondLoad t i =>
      match s.pc t, s.memory.pMessageCenter[i]? with
      | .atSecondLoad, some store =>
          if (s.seen t).newest ≤ i then
            some (s.move t (if store.pointer = none then .atNew else .atUnlock store.pointer)
              ((s.seen t).acquire i store))
          else none
      | _, _ => none
  | .allocate t =>
      if s.pc t = .atNew then
        some { s.move t (.inNew s.memory.allocated) (s.seen t) with
          memory.allocated := s.memory.allocated + 1 }
      else none
  | .construct t =>
      match s.pc t with
      | .inNew p =>
          some { s.move t (.atStore p) ⟨(s.seen t).newest, (s.seen t).completed ++ [p]⟩ with
            memory.constructed := s.memory.constructed ++ [p] }
      | _ => none
  | .store t =>
      match s.pc t with
      | .atStore p =>
          some { s.move t (.atUnlock (some p))
              ⟨s.memory.pMessageCenter.length, (s.seen t).completed⟩ with
            memory.pMessageCenter :=
              s.memory.pMessageCenter ++ [⟨some p, (s.seen t).completed⟩] }
      | _ => none
  | .unlock t =>
      match s.pc t with
      | .atUnlock pMsgCenter =>
          some { s.move t (.atReturn pMsgCenter) (s.seen t) with
            lockedBy := none, mtxSeen := s.seen t }
      | _ => none
  | .ret t =>
      match s.pc t with
      | .atReturn _ => some (s.move t .idle (s.seen t))
      | _ => none

end Step

/-! ## The invariant -/

/-- No thread has allocated yet. -/
def Memory.Fresh (m : Memory) : Prop := m = ⟨[⟨none, []⟩], 0, []⟩

/-- One allocation, not stored yet. -/
def Memory.Building (m : Memory) (constructed : List ℕ) : Prop :=
  m = ⟨[⟨none, []⟩], 1, constructed⟩

def Memory.Published (m : Memory) : Prop :=
  ∃ released, m = ⟨[⟨none, []⟩, ⟨some 0, released⟩], 1, [0]⟩ ∧ 0 ∈ released

/-- Nobody is between the second load and the store. -/
def Memory.Settled (m : Memory) : Prop := m.Fresh ∨ m.Published

inductive Memory.Phase (m : Memory) : Prop
  | settled (h : m.Settled)
  | constructing (h : m.Building [])
  | storing (h : m.Building [0])

def Pc.locked : Pc → Prop
  | .atSecondLoad | .atNew | .inNew _ | .atStore _ | .atUnlock _ => True
  | _ => False

/-- A view whose next load returns the newest store. -/
def Memory.Newest (m : Memory) (seen : Seen) : Prop :=
  seen.newest + 1 = m.pMessageCenter.length

/-- The pointer is published, and its construction has been seen. -/
def Memory.Obtained (m : Memory) (seen : Seen) (pMsgCenter : Option ℕ) : Prop :=
  pMsgCenter = some 0 ∧ m.Published ∧ 0 ∈ seen.completed

/-- What a thread knows where it is. -/
def Memory.Knows (m : Memory) (seen : Seen) : Pc → Prop
  | .idle | .atLoad | .atLock => True
  | .atSecondLoad => m.Settled ∧ m.Newest seen
  | .atNew => m.Fresh
  | .inNew p => p = 0 ∧ m.Building []
  | .atStore p => p = 0 ∧ m.Building [0] ∧ 0 ∈ seen.completed
  | .atUnlock pMsgCenter => m.Obtained seen pMsgCenter ∧ m.Newest seen
  | .atReturn pMsgCenter => m.Obtained seen pMsgCenter

structure Invariant (s : State τ) : Prop where
  phase : s.memory.Phase
  bounded : ∀ t, (s.seen t).newest < s.memory.pMessageCenter.length
  holder : ∀ t, (s.pc t).locked ↔ s.lockedBy = some t
  free : s.lockedBy = none → s.memory.Settled ∧ s.memory.Newest s.mtxSeen
  knows : ∀ t, s.memory.Knows (s.seen t) (s.pc t)

theorem invariant_start : Invariant (start : State τ) where
  phase := .settled (.inl rfl)
  bounded := fun _ => Nat.zero_lt_one
  holder := fun _ => ⟨False.elim, nofun⟩
  free := fun _ => ⟨.inl rfl, rfl⟩
  knows := fun _ => trivial

theorem Memory.Fresh.not_published {m : Memory} (h : m.Fresh) : ¬ m.Published := by
  rintro ⟨released, hm, -⟩
  rw [Fresh, hm] at h
  simp at h

theorem Memory.Building.not_published {m : Memory} {constructed : List ℕ}
    (h : m.Building constructed) : ¬ m.Published := by
  rintro ⟨released, hm, -⟩
  rw [Building, hm] at h
  simp at h

theorem Memory.Phase.at_most_one {m : Memory} (h : m.Phase) :
    m.allocated ≤ 1 ∧ m.constructed.length ≤ 1 := by
  rcases h with (h | ⟨released, h, -⟩) | h | h
  all_goals simp [show m = _ from h]

/-- Outside the lock, only a published pointer is known. -/
theorem Memory.Knows.of_not_locked {m m' : Memory} {seen : Seen} {pc : Pc}
    (h : m.Knows seen pc) (hpc : ¬ pc.locked) (hm : m.Published → m'.Published) :
    m'.Knows seen pc := by
  cases pc with
  | idle | atLoad | atLock => trivial
  | atReturn pMsgCenter => exact ⟨h.1, hm h.2.1, h.2.2⟩
  | _ => exact absurd trivial hpc

namespace Invariant

variable [DecidableEq τ] {s : State τ} {t : τ} {pc : Pc} {seen : Seen}

/-- A step of one thread that leaves the memory and the mutex alone. -/
theorem move (h : Invariant s) (hseen : seen.newest < s.memory.pMessageCenter.length)
    (hpc : pc.locked ↔ (s.pc t).locked) (hknows : s.memory.Knows seen pc) :
    Invariant (s.move t pc seen) where
  phase := h.phase
  bounded u := by
    by_cases hu : u = t
    · subst u
      simpa [State.move] using hseen
    · simpa [State.move, hu] using h.bounded u
  holder u := by
    by_cases hu : u = t
    · subst u
      simpa [State.move] using hpc.trans (h.holder t)
    · simpa [State.move, hu] using h.holder u
  free := h.free
  knows u := by
    by_cases hu : u = t
    · subst u
      simpa [State.move] using hknows
    · simpa [State.move, hu] using h.knows u

/-- A step of the thread that holds the mutex, before anything is published. -/
theorem move_memory {m : Memory} (h : Invariant s) (hlocked : (s.pc t).locked)
    (hstays : pc.locked) (hnot : ¬ s.memory.Published)
    (hphase : m.Phase)
    (hlen : s.memory.pMessageCenter.length ≤ m.pMessageCenter.length)
    (hseen : seen.newest < m.pMessageCenter.length) (hknows : m.Knows seen pc) :
    Invariant { s.move t pc seen with memory := m } where
  phase := hphase
  bounded u := by
    by_cases hu : u = t
    · subst u
      simpa [State.move] using hseen
    · simpa [State.move, hu] using Nat.lt_of_lt_of_le (h.bounded u) hlen
  holder u := by
    by_cases hu : u = t
    · subst u
      simpa [State.move, hstays] using (h.holder t).mp hlocked
    · simpa [State.move, hu] using h.holder u
  free hfree := by
    have hholder := (h.holder t).mp hlocked
    rw [show s.lockedBy = none from hfree] at hholder
    cases hholder
  knows u := by
    by_cases hu : u = t
    · subst u
      simpa [State.move] using hknows
    · have hother : ¬ (s.pc u).locked := by
        intro hlocked'
        have hsame := ((h.holder u).mp hlocked').symm.trans ((h.holder t).mp hlocked)
        exact hu (Option.some.inj hsame)
      have hkeeps : m.Knows (s.seen u) (s.pc u) :=
        (h.knows u).of_not_locked hother fun hpub => absurd hpub hnot
      simpa [State.move, hu] using hkeeps

theorem lock (h : Invariant s) (hfree : s.lockedBy = none) :
    Invariant
      { s.move t .atSecondLoad ((s.seen t).join s.mtxSeen) with lockedBy := some t } where
  phase := h.phase
  bounded u := by
    by_cases hu : u = t
    · subst u
      have hmtx := (h.free hfree).2
      have hown := h.bounded t
      simp only [State.move, Function.update_self, Seen.join]
      rw [Memory.Newest] at hmtx
      omega
    · simpa [State.move, hu] using h.bounded u
  holder u := by
    by_cases hu : u = t
    · simp [State.move, hu, Pc.locked]
    · have hnot : ¬ (s.pc u).locked := by simp [h.holder u, hfree]
      simpa [State.move, hu, Ne.symm hu] using hnot
  free hnone := by cases hnone
  knows u := by
    by_cases hu : u = t
    · subst u
      have hmtx : s.memory.Newest s.mtxSeen := (h.free hfree).2
      have hown := h.bounded t
      simp only [State.move, Function.update_self]
      refine ⟨(h.free hfree).1, ?_⟩
      simp only [Memory.Newest, Seen.join] at hmtx ⊢
      omega
    · simpa [State.move, hu] using h.knows u

theorem unlock {pMsgCenter : Option ℕ} (h : Invariant s) (hpc : s.pc t = .atUnlock pMsgCenter) :
    Invariant { s.move t (.atReturn pMsgCenter) (s.seen t) with
      lockedBy := none, mtxSeen := s.seen t } := by
  have hknows := h.knows t
  rw [hpc] at hknows
  have hholder := (h.holder t).mp (by rw [hpc]; trivial)
  refine ⟨h.phase, ?_, ?_, ?_, ?_⟩
  · intro u
    by_cases hu : u = t
    · subst u
      simpa [State.move] using h.bounded t
    · simpa [State.move, hu] using h.bounded u
  · intro u
    by_cases hu : u = t
    · subst u
      simp [State.move, Pc.locked]
    · have hnot : ¬ (s.pc u).locked := by simp [h.holder u, hholder, Ne.symm hu]
      simpa [State.move, hu] using hnot
  · intro _
    exact ⟨.inr hknows.1.2.1, hknows.2⟩
  · intro u
    by_cases hu : u = t
    · subst u
      simpa [State.move, Memory.Knows] using hknows.1
    · simpa [State.move, hu] using h.knows u

end Invariant

/-! ## Every step keeps it -/

/-- A load returns null or the published pointer. -/
theorem Invariant.load {s : State τ} {i : ℕ} {store : Store} (h : Invariant s)
    (hstore : s.memory.pMessageCenter[i]? = some store) :
    store.pointer = none ∨
      s.memory.Published ∧ store.pointer = some 0 ∧ 0 ∈ store.released := by
  have hnull : s.memory.pMessageCenter = [⟨none, []⟩] → store.pointer = none := by
    intro hm
    rw [hm] at hstore
    cases i with
    | zero =>
        obtain rfl : ⟨none, []⟩ = store := by simpa using hstore
        rfl
    | succ i => simp at hstore
  rcases h.phase with (hfresh | hpub) | hbuilding | hbuilding
  · exact .inl (hnull (by rw [hfresh]))
  · obtain ⟨released, hm, hmem⟩ := id hpub
    rw [hm] at hstore
    match i, hstore with
    | 0, hstore =>
        obtain rfl : ⟨none, []⟩ = store := by simpa using hstore
        exact .inl rfl
    | 1, hstore =>
        obtain rfl : ⟨some 0, released⟩ = store := by simpa using hstore
        exact .inr ⟨hpub, rfl, hmem⟩
    | i + 2, hstore => simp at hstore
  · exact .inl (hnull (by rw [hbuilding]))
  · exact .inl (hnull (by rw [hbuilding]))

/-- Where the newest store is null, nobody has allocated. -/
theorem Memory.Settled.fresh {m : Memory} {i : ℕ} {store : Store} (h : m.Settled)
    (hi : i + 1 = m.pMessageCenter.length) (hstore : m.pMessageCenter[i]? = some store)
    (hnull : store.pointer = none) : m.Fresh := by
  rcases h with hfresh | ⟨released, hm, -⟩
  · exact hfresh
  · rw [hm] at hi hstore
    obtain rfl : i = 1 := Nat.succ.inj hi
    obtain rfl : ⟨some 0, released⟩ = store := by simpa using hstore
    cases hnull

section Operations

variable [DecidableEq τ] {s : State τ} {t : τ}

theorem Invariant.firstLoad {i : ℕ} {store : Store} (h : Invariant s)
    (hpc : s.pc t = .atLoad) (hstore : s.memory.pMessageCenter[i]? = some store) :
    Invariant (s.move t (if store.pointer = none then .atLock else .atReturn store.pointer)
      ((s.seen t).acquire i store)) := by
  have hi : i < s.memory.pMessageCenter.length := (List.getElem?_eq_some_iff.mp hstore).1
  rcases h.load hstore with hnull | ⟨hpub, hsome, hmem⟩
  · rw [if_pos hnull]
    exact h.move hi (by simp [hpc, Pc.locked]) trivial
  · rw [if_neg (by simp [hsome])]
    exact h.move hi (by simp [hpc, Pc.locked]) ⟨hsome, hpub, List.mem_append_right _ hmem⟩

/-- Under the lock the newest store is the only one that the load may return. -/
theorem Invariant.secondLoad {i : ℕ} {store : Store} (h : Invariant s)
    (hpc : s.pc t = .atSecondLoad) (hstore : s.memory.pMessageCenter[i]? = some store)
    (hview : (s.seen t).newest ≤ i) :
    Invariant (s.move t (if store.pointer = none then .atNew else .atUnlock store.pointer)
      ((s.seen t).acquire i store)) := by
  have hi : i < s.memory.pMessageCenter.length := (List.getElem?_eq_some_iff.mp hstore).1
  have hknows := h.knows t
  rw [hpc] at hknows
  have hnewest : i + 1 = s.memory.pMessageCenter.length := by
    have hlast : (s.seen t).newest + 1 = s.memory.pMessageCenter.length := hknows.2
    omega
  have hlocked : (s.pc t).locked := by rw [hpc]; trivial
  rcases h.load hstore with hnull | ⟨hpub, hsome, hmem⟩
  · rw [if_pos hnull]
    exact h.move hi (iff_of_true trivial hlocked) (hknows.1.fresh hnewest hstore hnull)
  · rw [if_neg (by simp [hsome])]
    exact h.move hi (iff_of_true trivial hlocked) ⟨⟨hsome, hpub, List.mem_append_right _ hmem⟩, hnewest⟩

theorem Invariant.allocate (h : Invariant s) (hpc : s.pc t = .atNew) :
    Invariant { s.move t (.inNew s.memory.allocated) (s.seen t) with
      memory.allocated := s.memory.allocated + 1 } := by
  have hfresh : s.memory.Fresh := by simpa only [hpc, Memory.Knows] using h.knows t
  have hbuilding : Memory.Building
      { s.memory with allocated := s.memory.allocated + 1 } [] := by
    rw [hfresh]
    rfl
  exact h.move_memory (by rw [hpc]; trivial) trivial hfresh.not_published (.constructing hbuilding)
    (Nat.le_refl _) (h.bounded t) ⟨by rw [hfresh], hbuilding⟩

theorem Invariant.construct {p : ℕ} (h : Invariant s) (hpc : s.pc t = .inNew p) :
    Invariant { s.move t (.atStore p) ⟨(s.seen t).newest, (s.seen t).completed ++ [p]⟩ with
      memory.constructed := s.memory.constructed ++ [p] } := by
  have hknows := h.knows t
  rw [hpc] at hknows
  obtain ⟨rfl, hbuilding⟩ := hknows
  have hdone : Memory.Building
      { s.memory with constructed := s.memory.constructed ++ [0] } [0] := by
    rw [hbuilding]
    rfl
  exact h.move_memory (by rw [hpc]; trivial) trivial hbuilding.not_published (.storing hdone)
    (Nat.le_refl _) (h.bounded t) ⟨rfl, hdone, List.mem_append_right _ (List.mem_singleton_self 0)⟩

theorem Invariant.store {p : ℕ} (h : Invariant s) (hpc : s.pc t = .atStore p) :
    Invariant { s.move t (.atUnlock (some p))
        ⟨s.memory.pMessageCenter.length, (s.seen t).completed⟩ with
      memory.pMessageCenter := s.memory.pMessageCenter ++ [⟨some p, (s.seen t).completed⟩] } := by
  have hknows := h.knows t
  rw [hpc] at hknows
  obtain ⟨rfl, hbuilding, hseen⟩ := hknows
  have hpub : Memory.Published { s.memory with
      pMessageCenter := s.memory.pMessageCenter ++ [⟨some 0, (s.seen t).completed⟩] } := by
    refine ⟨(s.seen t).completed, ?_, hseen⟩
    rw [hbuilding]
    rfl
  refine h.move_memory (by rw [hpc]; trivial) trivial hbuilding.not_published
    (.settled (.inr hpub)) ?_ ?_ ⟨⟨rfl, hpub, hseen⟩, ?_⟩
  · simp
  · simp
  · simp [Memory.Newest]

theorem invariant_step {s' : State τ} {a : Action τ} (h : Invariant s)
    (hstep : step s a = some s') : Invariant s' := by
  cases a with
  | call t =>
      simp only [step, Option.ite_none_right_eq_some, Option.some.injEq] at hstep
      obtain ⟨hpc, rfl⟩ := hstep
      exact h.move (h.bounded t) (by simp [hpc, Pc.locked]) trivial
  | load t i =>
      simp only [step] at hstep
      split at hstep
      · next store hpc hstore =>
          simp only [Option.ite_none_right_eq_some, Option.some.injEq] at hstep
          obtain ⟨-, rfl⟩ := hstep
          exact h.firstLoad hpc hstore
      · cases hstep
  | lock t =>
      simp only [step, Option.ite_none_right_eq_some, Option.some.injEq] at hstep
      obtain ⟨⟨-, hfree⟩, rfl⟩ := hstep
      exact h.lock hfree
  | secondLoad t i =>
      simp only [step] at hstep
      split at hstep
      · next store hpc hstore =>
          simp only [Option.ite_none_right_eq_some, Option.some.injEq] at hstep
          obtain ⟨hview, rfl⟩ := hstep
          exact h.secondLoad hpc hstore hview
      · cases hstep
  | allocate t =>
      simp only [step, Option.ite_none_right_eq_some, Option.some.injEq] at hstep
      obtain ⟨hpc, rfl⟩ := hstep
      exact h.allocate hpc
  | construct t =>
      simp only [step] at hstep
      split at hstep
      · next p hpc =>
          obtain rfl := Option.some.inj hstep
          exact h.construct hpc
      · cases hstep
  | store t =>
      simp only [step] at hstep
      split at hstep
      · next p hpc =>
          obtain rfl := Option.some.inj hstep
          exact h.store hpc
      · cases hstep
  | unlock t =>
      simp only [step] at hstep
      split at hstep
      · next pMsgCenter hpc =>
          obtain rfl := Option.some.inj hstep
          exact h.unlock hpc
      · cases hstep
  | ret t =>
      simp only [step] at hstep
      split at hstep
      · next pMsgCenter hpc =>
          obtain rfl := Option.some.inj hstep
          exact h.move (h.bounded t) (by simp [hpc, Pc.locked]) trivial
      · cases hstep

end Operations

/-! ## Every call comes to its return -/

/-- The most steps that a thread still takes to its return. -/
def Pc.stepsLeft : Pc → ℕ
  | .atReturn _ => 0
  | .atUnlock _ => 1
  | .atStore _ => 2
  | .inNew _ => 3
  | .atNew => 4
  | .atSecondLoad => 5
  | .atLock => 6
  | .atLoad => 7
  | .idle => 8

section Progress

variable [DecidableEq τ] {s : State τ} {t : τ}

/-- Only the mutex can keep a thread from its next step. -/
theorem Invariant.advance (h : Invariant s) (hmay : (s.pc t).locked ∨ s.lockedBy = none)
    (hleft : 0 < (s.pc t).stepsLeft) :
    ∃ a u pc, step s a = some u ∧ u.pc = Function.update s.pc t pc ∧
      pc.stepsLeft < (s.pc t).stepsLeft ∧ ∀ v, a ≠ .ret v := by
  -- a load returns the newest store that the thread has seen
  obtain ⟨store, hstore⟩ : ∃ store,
      s.memory.pMessageCenter[(s.seen t).newest]? = some store :=
    ⟨_, List.getElem?_eq_getElem (h.bounded t)⟩
  cases hpc : s.pc t with
  | idle => exact ⟨.call t, _, .atLoad, by rw [step, if_pos hpc], rfl, by decide, nofun⟩
  | atLoad =>
      refine ⟨.load t (s.seen t).newest, _, _,
        by simp only [step, hpc, hstore]; exact if_pos (Nat.le_refl _), rfl, ?_, nofun⟩
      split <;> simp [Pc.stepsLeft]
  | atLock =>
      have hfree : s.lockedBy = none := by simpa [hpc, Pc.locked] using hmay
      exact ⟨.lock t, _, .atSecondLoad, by rw [step, if_pos ⟨hpc, hfree⟩], rfl, by decide, nofun⟩
  | atSecondLoad =>
      refine ⟨.secondLoad t (s.seen t).newest, _, _,
        by simp only [step, hpc, hstore]; exact if_pos (Nat.le_refl _), rfl, ?_, nofun⟩
      split <;> simp [Pc.stepsLeft]
  | atNew =>
      exact ⟨.allocate t, _, .inNew s.memory.allocated, by rw [step, if_pos hpc], rfl,
        Nat.lt_succ_self _, nofun⟩
  | inNew p =>
      exact ⟨.construct t, _, .atStore p, by rw [step, hpc], rfl, Nat.lt_succ_self _, nofun⟩
  | atStore p =>
      exact ⟨.store t, _, .atUnlock (some p), by rw [step, hpc], rfl, Nat.lt_succ_self _,
        nofun⟩
  | atUnlock pMsgCenter =>
      exact ⟨.unlock t, _, .atReturn pMsgCenter, by rw [step, hpc], rfl,
        Nat.lt_succ_self _, nofun⟩
  | atReturn pMsgCenter => simp [hpc, Pc.stepsLeft] at hleft

omit [DecidableEq τ] in
theorem Invariant.mayMove {u : State τ} (h : Invariant s) (hu : Invariant u)
    (hmay : (s.pc t).locked ∨ s.lockedBy = none) (hothers : ∀ v, v ≠ t → u.pc v = s.pc v) :
    (u.pc t).locked ∨ u.lockedBy = none := by
  cases hheld : u.lockedBy with
  | none => exact .inr rfl
  | some v =>
      left
      have hlocked := (hu.holder v).mpr hheld
      by_cases hv : v = t
      · exact hv ▸ hlocked
      · rw [hothers v hv, h.holder v] at hlocked
        rcases hmay with hmine | hfree
        · exact absurd (Option.some.inj (hlocked.symm.trans ((h.holder t).mp hmine))) hv
        · simp [hfree] at hlocked

/-- A thread that has the mutex, or finds it free, runs by itself to its return. -/
theorem Invariant.runsToReturn (h : Invariant s)
    (hmay : (s.pc t).locked ∨ s.lockedBy = none) :
    ∃ bs u pMsgCenter, run step s bs = some u ∧ u.pc t = .atReturn pMsgCenter ∧
      (∀ v, v ≠ t → u.pc v = s.pc v) ∧ ∀ v, .ret v ∉ bs := by
  induction hn : (s.pc t).stepsLeft using Nat.strongRecOn generalizing s with
  | _ n ih =>
      rcases Nat.eq_zero_or_pos (s.pc t).stepsLeft with hzero | hleft
      · cases hpc : s.pc t with
        | atReturn pMsgCenter => exact ⟨[], s, pMsgCenter, rfl, hpc, fun _ _ => rfl, nofun⟩
        | _ => simp [hpc, Pc.stepsLeft] at hzero
      · obtain ⟨a, u, pc, hstep, hpcs, hless, hnot⟩ := h.advance hmay hleft
        have hu := invariant_step h hstep
        have hothers : ∀ v, v ≠ t → u.pc v = s.pc v := fun v hv => by
          rw [hpcs, Function.update_of_ne hv]
        have hpc : u.pc t = pc := by rw [hpcs, Function.update_self]
        obtain ⟨bs, w, pMsgCenter, hrun, hret, hkept, hnone⟩ :=
          ih _ (by rw [hpc]; omega) hu (h.mayMove hu hmay hothers) rfl
        refine ⟨a :: bs, w, pMsgCenter, run_cons_eq_some.mpr ⟨u, hstep, hrun⟩, hret,
          fun v hv => (hkept v hv).trans (hothers v hv), fun v hmem => ?_⟩
        rcases List.mem_cons.mp hmem with hhead | htail
        · exact hnot v hhead.symm
        · exact hnone v htail

/-- Where another thread has the mutex, that one goes first. -/
theorem Invariant.canReturn (h : Invariant s) (t : τ) :
    ∃ bs u pMsgCenter, run step s bs = some u ∧ u.pc t = .atReturn pMsgCenter ∧
      ∀ v, .ret v ∉ bs := by
  by_cases hmay : (s.pc t).locked ∨ s.lockedBy = none
  · obtain ⟨bs, u, pMsgCenter, hrun, hret, -, hnone⟩ := h.runsToReturn hmay
    exact ⟨bs, u, pMsgCenter, hrun, hret, hnone⟩
  · push Not at hmay
    obtain ⟨hnot, hheld⟩ := hmay
    obtain ⟨v, hv⟩ := Option.ne_none_iff_exists'.mp hheld
    have hlocked := (h.holder v).mpr hv
    obtain ⟨bs, u, q, hrun, hret, hothers, hnone⟩ := h.runsToReturn (.inl hlocked)
    have hu : Invariant u := run_invariant (fun _ _ _ => invariant_step) h hrun
    have hfree : u.lockedBy = none := by
      have hkept := h.mayMove hu (.inl hlocked) hothers
      simpa [hret, Pc.locked] using hkept
    obtain ⟨cs, w, pMsgCenter, hrun', hret', -, hnone'⟩ := hu.runsToReturn (t := t) (.inr hfree)
    refine ⟨bs ++ cs, w, pMsgCenter, ?_, hret', fun x hmem => ?_⟩
    · rw [run_append, hrun, Option.bind_some, hrun']
    · rcases List.mem_append.mp hmem with hmem | hmem
      · exact hnone x hmem
      · exact hnone' x hmem

end Progress

/-- At most one object is ever built.  Every call that returns gets the same pointer,
after its construction, and from every reachable state every call, under way or to come,
can go on to its return with that pointer, while the others have not returned. -/
theorem created_once [DecidableEq τ] {as : List (Action τ)} {s : State τ}
    (hrun : run step start as = some s) :
    s.memory.allocated ≤ 1 ∧ s.memory.constructed.length ≤ 1 ∧
      ∃ p, (∀ u t pMsgCenter, (u, .ret t) ∈ trace step start as →
          u.pc t = .atReturn pMsgCenter →
          pMsgCenter = some p ∧ p ∈ u.memory.constructed ∧ p ∈ (u.seen t).completed) ∧
        ∀ t, ∃ bs u, run step s bs = some u ∧ (∀ v, .ret v ∉ bs) ∧
          u.pc t = .atReturn (some p) ∧ (step u (.ret t)).isSome ∧
          u.memory.allocated = 1 ∧ u.memory.constructed = [p] := by
  have hs : Invariant s := run_invariant (fun _ _ _ => invariant_step) invariant_start hrun
  have hbefore := forall_mem_trace (fun _ _ _ => invariant_step) invariant_start hrun
  refine ⟨hs.phase.at_most_one.1, hs.phase.at_most_one.2, 0, ?_, fun t => ?_⟩
  · intro u t pMsgCenter hmem hpc
    have hknows : u.memory.Knows (u.seen t) (u.pc t) := (hbefore _ hmem).knows t
    rw [hpc] at hknows
    obtain ⟨hsome, ⟨released, hm, -⟩, hseen⟩ := hknows
    exact ⟨hsome, by simp [hm], hseen⟩
  · obtain ⟨bs, u, pMsgCenter, hbs, hpc, hnone⟩ := hs.canReturn t
    have hu : Invariant u := run_invariant (fun _ _ _ => invariant_step) hs hbs
    have hknows := hu.knows t
    rw [hpc] at hknows
    obtain ⟨rfl, ⟨released, hm, -⟩, -⟩ := hknows
    exact ⟨bs, u, hbs, hnone, hpc, by simp [step, hpc], by simp [hm], by simp [hm]⟩

/-- Thread 1 still loads null after thread 0 has stored. -/
def staleLoad : List (Action ℕ) :=
  [.call 0, .call 1, .load 0 0, .lock 0, .secondLoad 0 0, .allocate 0, .construct 0, .store 0,
    .load 1 0, .unlock 0, .lock 1, .secondLoad 1 1, .unlock 1, .ret 0, .ret 1]

/-- What the calls of a run return. -/
def returned (as : List (Action ℕ)) : List (ℕ × Pc) :=
  (trace step start as).filterMap fun e =>
    match e.2 with
    | .ret t => some (t, e.1.pc t)
    | _ => none

theorem created_once_staleLoad :
    ∃ s, run step start staleLoad = some s ∧ s.memory.allocated = 1 ∧
      s.memory.constructed = [0] ∧
      returned staleLoad = [(0, .atReturn (some 0)), (1, .atReturn (some 0))] ∧
      ∃ p bs u, run step s bs = some u ∧ u.pc 2 = .atReturn (some p) ∧
        u.memory.constructed = [p] := by
  obtain ⟨s, hs, hone, hfirst⟩ : ∃ s, run step start staleLoad = some s ∧
      s.memory.allocated = 1 ∧ s.memory.constructed = [0] := ⟨_, rfl, rfl, rfl⟩
  obtain ⟨-, -, p, -, hreturns⟩ := created_once hs
  obtain ⟨bs, u, hrun, -, hpc, -, -, hbuilt⟩ := hreturns 2
  exact ⟨s, hs, hone, hfirst, rfl, p, bs, u, hrun, hpc, hbuilt⟩

end Banana.MessageCenterInstance
