import Banana.Library.Threads
import Banana.Library.Transition

/-!
# Monitors with condition variables

A mutex guards a shared state; every call runs a body under the lock.  One
pass of a body either finds its condition false and sleeps on a condition
variable, releasing the lock, or finishes, possibly after `notify_one`.  A
sleeper is woken by a notification or spuriously, re-acquires the lock later
and runs the body again.  Since bodies exclude each other, one pass is one
step, and the order of the steps is the order in which the lock was held.
-/

namespace Monitor

open Function Threads

variable {σ ω ρ κ τ : Type*}

/-- What one pass of a body does under the lock. -/
inductive Pass (σ ρ κ : Type*)
  | wait (c : κ)
  | finish (state : σ) (result : ρ) (notified : Option κ)

/-- What a thread is doing: nothing here, asleep on a condition variable and
not notified, or woken and not yet holding the lock again. -/
inductive Status (ω κ : Type*)
  | idle
  | asleep (op : ω) (c : κ)
  | woken (op : ω) (c : κ)

/-- `log` lists the completed calls with their results, in lock order. -/
structure State (σ ω ρ κ τ : Type*) where
  shared : σ
  status : τ → Status ω κ
  log : List (ω × ρ)

inductive Action (ω τ : Type*)
  | call (t : τ) (op : ω) (wake : Option τ)
  | resume (t : τ) (wake : Option τ)
  | spurious (t : τ)

def start (shared : σ) : State σ ω ρ κ τ := ⟨shared, fun _ => .idle, []⟩

section Conditions

variable [DecidableEq κ]

def sleepsOn (c : κ) : Status ω κ → Bool
  | .asleep _ d => d = c
  | _ => false

def wokenOn (c : κ) : Status ω κ → Bool
  | .woken _ d => d = c
  | _ => false

@[simp] theorem sleepsOn_idle (c : κ) : sleepsOn c (.idle : Status ω κ) = false := rfl

@[simp] theorem sleepsOn_asleep (c d : κ) (op : ω) :
    sleepsOn c (.asleep op d) = decide (d = c) := rfl

@[simp] theorem sleepsOn_woken (c d : κ) (op : ω) : sleepsOn c (.woken op d) = false := rfl

@[simp] theorem wokenOn_idle (c : κ) : wokenOn c (.idle : Status ω κ) = false := rfl

@[simp] theorem wokenOn_asleep (c d : κ) (op : ω) : wokenOn c (.asleep op d) = false := rfl

@[simp] theorem wokenOn_woken (c d : κ) (op : ω) :
    wokenOn c (.woken op d) = decide (d = c) := rfl

def Enters (s : State σ ω ρ κ τ) (t : τ) (op : ω) : Prop :=
  s.status t = .idle ∨ ∃ c, s.status t = .woken op c

theorem Enters.not_asleep {s : State σ ω ρ κ τ} {t : τ} {op : ω} (hin : Enters s t op) (c : κ) :
    sleepsOn c (s.status t) = false := by
  rcases hin with h | ⟨d, h⟩ <;> simp [h]

variable [Fintype τ]

/-- `notify_one` on `c` wakes some sleeper of `c`, and nobody only when nobody
sleeps there. -/
def CanWake (status : τ → Status ω κ) : Option κ → Option τ → Prop
  | none, wake => wake = none
  | some c, none => count (sleepsOn c) status = 0
  | some c, some t => sleepsOn c (status t) = true

instance [DecidableEq τ] (status : τ → Status ω κ) (notified : Option κ) (wake : Option τ) :
    Decidable (CanWake status notified wake) :=
  match notified, wake with
  | none, wake => inferInstanceAs (Decidable (wake = none))
  | some c, none => inferInstanceAs (Decidable (count (sleepsOn c) status = 0))
  | some c, some t => inferInstanceAs (Decidable (sleepsOn c (status t) = true))

theorem CanWake.isSome {status : τ → Status ω κ} {c : κ} {wake : Option τ}
    (hwake : CanWake status (some c) wake) (hpos : 0 < count (sleepsOn c) status) :
    wake.isSome := by
  cases wake with
  | none =>
      have hzero : count (sleepsOn c) status = 0 := hwake
      omega
  | some t => rfl

end Conditions

def Status.notify : Status ω κ → Status ω κ
  | .asleep op c => .woken op c
  | st => st

/-- A thread only sleeps on the condition variable of its own call. -/
def Waiting (condvar : ω → Option κ) (status : τ → Status ω κ) : Prop :=
  ∀ t op c, status t = .asleep op c ∨ status t = .woken op c → condvar op = some c

theorem waiting_start (condvar : ω → Option κ) (shared : σ) :
    Waiting condvar (start shared : State σ ω ρ κ τ).status := by
  rintro t op c (h | h) <;> simp [start] at h

variable [DecidableEq τ]

def wakeUp (status : τ → Status ω κ) : Option τ → τ → Status ω κ
  | none => status
  | some t => update status t (status t).notify

theorem wakeUp_eq_asleep_iff {status : τ → Status ω κ} {wake : Option τ} {t : τ} {op : ω}
    {c : κ} : wakeUp status wake t = .asleep op c ↔ status t = .asleep op c ∧ wake ≠ some t := by
  cases wake with
  | none => simp [wakeUp]
  | some v =>
      by_cases htv : t = v
      · subst v
        cases hst : status t <;> simp [wakeUp, hst, Status.notify]
      · simp [wakeUp, htv, Ne.symm htv]

theorem asleep_after_finish {status : τ → Status ω κ} {wake : Option τ} {t v : τ} {op : ω}
    {c : κ} (h : update (wakeUp status wake) t .idle v = .asleep op c) :
    status v = .asleep op c ∧ wake ≠ some v := by
  by_cases hvt : v = t
  · subst v
    simp at h
  · rw [update_of_ne hvt] at h
    exact wakeUp_eq_asleep_iff.mp h

theorem Waiting.wakeUp {condvar : ω → Option κ} {status : τ → Status ω κ}
    (h : Waiting condvar status) (wake : Option τ) :
    Waiting condvar (Monitor.wakeUp status wake) := by
  cases wake with
  | none => exact h
  | some v =>
      intro t op c hst
      by_cases htv : t = v
      · subst v
        cases hs : status t with
        | idle => simp [Monitor.wakeUp, hs, Status.notify] at hst
        | asleep op' d =>
            have heq : op' = op ∧ d = c := by
              simpa [Monitor.wakeUp, hs, Status.notify] using hst
            exact h t op c (.inl (by rw [hs, heq.1, heq.2]))
        | woken op' d =>
            have heq : op' = op ∧ d = c := by
              simpa [Monitor.wakeUp, hs, Status.notify] using hst
            exact h t op c (.inr (by rw [hs, heq.1, heq.2]))
      · exact h t op c (by simpa [Monitor.wakeUp, htv] using hst)

theorem Waiting.update_idle {condvar : ω → Option κ} {status : τ → Status ω κ}
    (h : Waiting condvar status) (t : τ) : Waiting condvar (update status t .idle) := by
  intro v op c hst
  by_cases hvt : v = t
  · subst v
    simp at hst
  · exact h v op c (by simpa [hvt] using hst)

theorem Waiting.update_asleep {condvar : ω → Option κ} {status : τ → Status ω κ}
    (h : Waiting condvar status) (t : τ) {op : ω} {c : κ} (hop : condvar op = some c) :
    Waiting condvar (update status t (.asleep op c)) := by
  intro v op' d hst
  by_cases hvt : v = t
  · subst v
    have heq : op = op' ∧ c = d := by simpa using hst
    rw [← heq.1, ← heq.2, hop]
  · exact h v op' d (by simpa [hvt] using hst)

theorem Waiting.update_woken {condvar : ω → Option κ} {status : τ → Status ω κ}
    (h : Waiting condvar status) {t : τ} {op : ω} {c : κ} (hst : status t = .asleep op c) :
    Waiting condvar (update status t (.woken op c)) := by
  have hwake := h.wakeUp (some t)
  rwa [Monitor.wakeUp, hst] at hwake

variable [Fintype τ] [DecidableEq κ]

def pass (body : ω → σ → Pass σ ρ κ) (s : State σ ω ρ κ τ) (t : τ) (op : ω)
    (wake : Option τ) : Option (State σ ω ρ κ τ) :=
  match body op s.shared with
  | .wait c =>
      if wake = none then some { s with status := update s.status t (.asleep op c) } else none
  | .finish shared result notified =>
      if CanWake s.status notified wake then
        some ⟨shared, update (wakeUp s.status wake) t .idle, s.log ++ [(op, result)]⟩
      else none

def step (body : ω → σ → Pass σ ρ κ) (s : State σ ω ρ κ τ) :
    Action ω τ → Option (State σ ω ρ κ τ)
  | .call t op wake =>
      match s.status t with
      | .idle => pass body s t op wake
      | _ => none
  | .resume t wake =>
      match s.status t with
      | .woken op _ => pass body s t op wake
      | _ => none
  | .spurious t =>
      match s.status t with
      | .asleep op c => some { s with status := update s.status t (.woken op c) }
      | _ => none

def runs (s : State σ ω ρ κ τ) : Action ω τ → Option ω
  | .call _ op _ => some op
  | .resume t _ =>
      match s.status t with
      | .woken op _ => some op
      | _ => none
  | .spurious _ => none

inductive Moves (body : ω → σ → Pass σ ρ κ) (s : State σ ω ρ κ τ) (a : Action ω τ) :
    State σ ω ρ κ τ → Prop
  | waits (t : τ) (op : ω) (c : κ) (hin : Enters s t op) (hbody : body op s.shared = .wait c) :
      Moves body s a { s with status := update s.status t (.asleep op c) }
  | finishes (t : τ) (op : ω) (shared : σ) (result : ρ) (notified : Option κ)
      (wake : Option τ) (hin : Enters s t op) (hruns : runs s a = some op)
      (hbody : body op s.shared = .finish shared result notified)
      (hwake : CanWake s.status notified wake) :
      Moves body s a
        ⟨shared, update (wakeUp s.status wake) t .idle, s.log ++ [(op, result)]⟩
  | spurious (t : τ) (op : ω) (c : κ) (hsleep : s.status t = .asleep op c) :
      Moves body s a { s with status := update s.status t (.woken op c) }

variable {body : ω → σ → Pass σ ρ κ} {s u : State σ ω ρ κ τ} {a : Action ω τ}

theorem moves_of_pass {t : τ} {op : ω} {wake : Option τ} (hin : Enters s t op)
    (hruns : runs s a = some op) (h : pass body s t op wake = some u) : Moves body s a u := by
  unfold pass at h
  cases hbody : body op s.shared with
  | wait c =>
      simp only [hbody, Option.ite_none_right_eq_some, Option.some.injEq] at h
      exact h.2 ▸ .waits t op c hin hbody
  | finish shared result notified =>
      simp only [hbody, Option.ite_none_right_eq_some, Option.some.injEq] at h
      exact h.2 ▸ .finishes t op shared result notified wake hin hruns hbody h.1

theorem moves_of_step (h : step body s a = some u) : Moves body s a u := by
  cases a with
  | call t op wake =>
      cases hst : s.status t with
      | idle => exact moves_of_pass (.inl hst) rfl (by simpa [step, hst] using h)
      | asleep op c => simp [step, hst] at h
      | woken op c => simp [step, hst] at h
  | resume t wake =>
      cases hst : s.status t with
      | idle => simp [step, hst] at h
      | asleep op c => simp [step, hst] at h
      | woken op c =>
          apply moves_of_pass (.inr ⟨c, hst⟩)
          · simp [runs, hst]
          · simpa [step, hst] using h
  | spurious t =>
      cases hst : s.status t with
      | idle => simp [step, hst] at h
      | woken op c => simp [step, hst] at h
      | asleep op c =>
          have hu : { s with status := update s.status t (.woken op c) } = u := by
            simpa [step, hst] using h
          exact hu ▸ .spurious t op c hst

theorem Moves.waiting {condvar : ω → Option κ}
    (hwaits : ∀ op s c, body op s = .wait c → condvar op = some c)
    (hw : Waiting condvar s.status) (hmove : Moves body s a u) : Waiting condvar u.status := by
  cases hmove with
  | waits t op c _ hbody => exact hw.update_asleep t (hwaits op _ c hbody)
  | finishes t _ _ _ _ wake _ _ _ _ => exact (hw.wakeUp wake).update_idle t
  | spurious t op c hsleep => exact hw.update_woken hsleep

theorem run_log_invariant {I : List (ω × ρ) → σ → Prop}
    (hfinish : ∀ log shared op shared' result notified, I log shared →
      body op shared = .finish shared' result notified → I (log ++ [(op, result)]) shared')
    {as : List (Action ω τ)} (hs : I s.log s.shared)
    (hrun : Transition.run (step body) s as = some u) : I u.log u.shared := by
  refine Transition.run_invariant (I := fun v => I v.log v.shared) ?_ hs hrun
  intro v a w hv hstep
  cases moves_of_step hstep with
  | waits => exact hv
  | finishes t op shared result notified wake _ _ hbody _ =>
      exact hfinish _ _ op shared result notified hv hbody
  | spurious => exact hv

/-! ## No lost wake-up

`work c` measures how many calls sleeping on `c` the shared state could
serve.  If a finishing pass notifies `c` whenever it adds to that work, and
takes one unit of it when it slept on `c` itself, then there are never more
units of work than threads on their way to it while another thread is still
asleep. -/

structure Accounting (body : ω → σ → Pass σ ρ κ) (condvar : ω → Option κ) (I : σ → Prop)
    (work : κ → σ → ℕ) : Prop where
  keeps : ∀ {op s s' r n}, I s → body op s = .finish s' r n → I s'
  waits : ∀ {op s c}, body op s = .wait c → condvar op = some c
  exhausted : ∀ {op s c}, I s → body op s = .wait c → work c s = 0
  rises : ∀ {op s s' r n}, I s → body op s = .finish s' r n →
    ∀ c, work c s' ≤ work c s + if n = some c then 1 else 0
  consumes : ∀ {op s s' r n c}, I s → body op s = .finish s' r n →
    condvar op = some c → work c s' < work c s

/-- While a thread is asleep on `c`, every unit of work for `c` has a woken
thread of its own. -/
def Attended (work : κ → σ → ℕ) (s : State σ ω ρ κ τ) : Prop :=
  ∀ c, 0 < count (sleepsOn c) s.status → work c s.shared ≤ count (wokenOn c) s.status

theorem sleepsOn_eq_true {c : κ} {st : Status ω κ} :
    sleepsOn c st = true ↔ ∃ op, st = .asleep op c := by
  cases st <;> simp [sleepsOn]

theorem count_sleepsOn_wakeUp (status : τ → Status ω κ) {notified : Option κ}
    {wake : Option τ} (hwake : CanWake status notified wake) (c : κ) :
    count (sleepsOn c) (wakeUp status wake) +
      (if notified = some c ∧ wake.isSome then 1 else 0) = count (sleepsOn c) status := by
  cases wake with
  | none => simp [wakeUp]
  | some t =>
      cases notified with
      | none => simp [CanWake] at hwake
      | some d =>
          obtain ⟨op, hop⟩ := sleepsOn_eq_true.mp hwake
          have hcount := count_update (sleepsOn c) status t (.woken op d)
          simpa [wakeUp, hop, Status.notify] using hcount

theorem count_wokenOn_wakeUp (status : τ → Status ω κ) {notified : Option κ}
    {wake : Option τ} (hwake : CanWake status notified wake) (c : κ) :
    count (wokenOn c) (wakeUp status wake) =
      count (wokenOn c) status + if notified = some c ∧ wake.isSome then 1 else 0 := by
  cases wake with
  | none => simp [wakeUp]
  | some t =>
      cases notified with
      | none => simp [CanWake] at hwake
      | some d =>
          obtain ⟨op, hop⟩ := sleepsOn_eq_true.mp hwake
          have hcount := count_update (wokenOn c) status t (.woken op d)
          simpa [wakeUp, hop, Status.notify] using hcount

theorem wakeUp_apply_of_enters {t : τ} {op : ω} {notified : Option κ} {wake : Option τ}
    (hin : Enters s t op) (hwake : CanWake s.status notified wake) :
    wakeUp s.status wake t = s.status t := by
  cases wake with
  | none => rfl
  | some v =>
      by_cases htv : t = v
      · subst v
        rcases hin with hidle | ⟨c, hwoken⟩
        · simp [wakeUp, hidle, Status.notify]
        · simp [wakeUp, hwoken, Status.notify]
      · exact update_of_ne htv _ _

section Rule

variable {condvar : ω → Option κ} {I : σ → Prop} {work : κ → σ → ℕ}

/-- The thread that finishes leaves the lock: it was awake before and is idle
after, and whoever is notified moves from the sleepers to the woken. -/
theorem count_sleepsOn_finish {t : τ} {op : ω} {notified : Option κ} {wake : Option τ}
    (hin : Enters s t op) (hwake : CanWake s.status notified wake) (c : κ) :
    count (sleepsOn c) (update (wakeUp s.status wake) t .idle) +
      (if notified = some c ∧ wake.isSome then 1 else 0) = count (sleepsOn c) s.status := by
  have hidle := count_update (sleepsOn c) (wakeUp s.status wake) t .idle
  rw [wakeUp_apply_of_enters hin hwake, hin.not_asleep c] at hidle
  rw [← count_sleepsOn_wakeUp s.status hwake c]
  simpa using hidle

theorem count_wokenOn_finish {t : τ} {op : ω} {notified : Option κ} {wake : Option τ}
    (hin : Enters s t op) (hwake : CanWake s.status notified wake) (c : κ) :
    count (wokenOn c) (update (wakeUp s.status wake) t .idle) +
      (if wokenOn c (s.status t) then 1 else 0) =
        count (wokenOn c) s.status + if notified = some c ∧ wake.isSome then 1 else 0 := by
  have hidle := count_update (wokenOn c) (wakeUp s.status wake) t .idle
  rw [wakeUp_apply_of_enters hin hwake, count_wokenOn_wakeUp s.status hwake c] at hidle
  simpa using hidle

theorem Moves.attended (hacc : Accounting body condvar I work) (hI : I s.shared)
    (hw : Waiting condvar s.status) (hatt : Attended work s) (hmove : Moves body s a u) :
    Attended work u := by
  intro c hpos
  cases hmove with
  | waits t op d hin hbody =>
      by_cases hcd : c = d
      · subst c
        rw [hacc.exhausted hI hbody]
        exact Nat.zero_le _
      · have hwoken : wokenOn c (s.status t) = false := by
          rcases hin with h | ⟨e, h⟩
          · simp [h]
          · have hed := (hw t op e (.inr h)).symm.trans (hacc.waits hbody)
            simp [h, Option.some.inj hed, Ne.symm hcd]
        change 0 < count (sleepsOn c) (update s.status t (.asleep op d)) at hpos
        change work c s.shared ≤ count (wokenOn c) (update s.status t (.asleep op d))
        have hsl := count_update (sleepsOn c) s.status t (.asleep op d)
        have hwk := count_update (wokenOn c) s.status t (.asleep op d)
        simp only [hin.not_asleep c, hwoken, sleepsOn_asleep, wokenOn_asleep, Ne.symm hcd,
          decide_false, Bool.false_eq_true, if_false, Nat.add_zero] at hsl hwk
        rw [hwk]
        exact hatt c (hsl ▸ hpos)
  | finishes t op shared result notified wake hin _ hbody hwake =>
      change 0 < count (sleepsOn c) (update (wakeUp s.status wake) t .idle) at hpos
      change work c shared ≤ count (wokenOn c) (update (wakeUp s.status wake) t .idle)
      have hsl := count_sleepsOn_finish hin hwake c
      have hwk := count_wokenOn_finish hin hwake c
      have hbefore : 0 < count (sleepsOn c) s.status := by omega
      have hold := hatt c hbefore
      have hrise := hacc.rises hI hbody c
      have hnotified : notified = some c → wake.isSome := by
        rintro rfl
        exact hwake.isSome hbefore
      -- A thread that slept on `c` takes one unit of the work it was woken for.
      have hown : wokenOn c (s.status t) = true → work c shared < work c s.shared := by
        intro hwoken
        have hop : s.status t = .woken op c := by
          rcases hin with h | ⟨e, h⟩
          · simp [h] at hwoken
          · have hec : e = c := by simpa [h] using hwoken
            rw [h, hec]
        exact hacc.consumes hI hbody (hw t op c (.inr hop))
      by_cases hn : notified = some c
      · simp only [hn, hnotified hn, and_self, if_true] at hwk hrise
        split_ifs at hwk with hwoken
        · have hlt := hown hwoken
          omega
        · omega
      · simp only [hn, false_and, if_false] at hwk hrise
        split_ifs at hwk with hwoken
        · have hlt := hown hwoken
          omega
        · omega
  | spurious t op d hsleep =>
      change 0 < count (sleepsOn c) (update s.status t (.woken op d)) at hpos
      change work c s.shared ≤ count (wokenOn c) (update s.status t (.woken op d))
      have hsl := count_update (sleepsOn c) s.status t (.woken op d)
      have hwk := count_update (wokenOn c) s.status t (.woken op d)
      simp only [hsleep, sleepsOn_asleep, sleepsOn_woken, wokenOn_asleep, wokenOn_woken,
        Bool.false_eq_true, if_false, Nat.add_zero] at hsl hwk
      have hold := hatt c (by omega)
      omega

/-- The rule for a whole run: no state of it has a thread asleep on `c` and more
work for `c` than threads woken for it. -/
theorem run_attended (hacc : Accounting body condvar I work) {shared : σ} (hI : I shared)
    {as : List (Action ω τ)} (hrun : Transition.run (step body) (start shared) as = some u) :
    I u.shared ∧ Waiting condvar u.status ∧ Attended work u := by
  refine Transition.run_invariant
    (I := fun v => I v.shared ∧ Waiting condvar v.status ∧ Attended work v) ?_ ?_ hrun
  · rintro v a w ⟨hv, hwait, hatt⟩ hstep
    have hmove := moves_of_step hstep
    refine ⟨?_, hmove.waiting (fun _ _ _ => hacc.waits) hwait, hmove.attended hacc hv hwait hatt⟩
    cases hmove with
    | waits => exact hv
    | finishes t op shared' result notified wake _ _ hbody _ => exact hacc.keeps hv hbody
    | spurious => exact hv
  · refine ⟨hI, waiting_start condvar shared, ?_⟩
    · intro c hpos
      obtain ⟨t, ht⟩ := count_pos_iff.mp hpos
      simp [start] at ht

end Rule

end Monitor
