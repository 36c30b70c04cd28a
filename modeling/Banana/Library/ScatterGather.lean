import Mathlib.Algebra.BigOperators.Group.Multiset.Basic
import Mathlib.Data.Int.Cast.Basic
import Mathlib.Data.Multiset.Lattice
import Mathlib.Tactic.Common

/-!
# Scatter, gather and count

A coordinator receives requests.  Each is a list of tasks, which it posts one
after another; a task is counted after it has been posted, and may be done by
then.  Results come back in any order, but only while the coordinator is not
posting.  Each result takes one off the counter and joins the best so far; when
the counter comes to zero, the best so far is given as the answer.

Results live in any join semilattice with a bottom, so their order cannot
matter.  What is not free is the meaning of the counter: it says how many tasks
are under way, of all requests together.
-/

namespace ScatterGather

open Multiset

variable {α β : Type*}

/-- `unposted` is what the loop over a request has left, `uncounted` is 1 between
posting a task and counting it. -/
@[ext] structure State (α β : Type*) where
  requests : List (List α)
  unposted : List α
  uncounted : ℕ
  taskCount : ℤ
  tasks : Multiset α
  results : Multiset β
  reduced : Multiset β
  best : β
  answers : List β

namespace State

def outstanding (s : State α β) : ℕ := s.unposted.length + card s.tasks + card s.results

end State

/-- Even with losses no more is under way than was requested. -/
def Bounded (s : State α β) : Prop :=
  s.outstanding + card s.reduced ≤ s.requests.flatten.length

theorem Bounded.outstanding_eq_zero {s : State α β} (hs : Bounded s) (hnone : s.requests = []) :
    s.outstanding = 0 := by
  unfold Bounded at hs
  rw [hnone, List.flatten_nil, List.length_nil] at hs
  omega

def finished (s : State α β) : List (List α) :=
  if s.outstanding = 0 then s.requests else s.requests.dropLast

variable [SemilatticeSup β]

def State.reduce (s : State α β) (m : β) (results : Multiset β) : State α β :=
  { s with
    taskCount := s.taskCount - 1
    results := results
    reduced := m ::ₘ s.reduced
    best := s.best ⊔ m
    answers := if s.taskCount - 1 = 0 then s.answers ++ [s.best ⊔ m] else s.answers }

/-- What can happen.  A lossy system may also lose tasks and results. -/
inductive Step (computes : α → β → Prop) (lossy : Prop) : State α β → State α β → Prop
  | request (s : State α β) (job : List α) (hloop : s.unposted = []) (hcounted : s.uncounted = 0) :
      Step computes lossy s { s with requests := s.requests ++ [job], unposted := job }
  | post (s : State α β) (a : α) (rest : List α) (hloop : s.unposted = a :: rest)
      (hcounted : s.uncounted = 0) :
      Step computes lossy s { s with unposted := rest, uncounted := 1, tasks := a ::ₘ s.tasks }
  | count (s : State α β) (hposted : s.uncounted = 1) :
      Step computes lossy s { s with uncounted := 0, taskCount := s.taskCount + 1 }
  | compute (s : State α β) (a : α) (m : β) (tasks : Multiset α) (htasks : s.tasks = a ::ₘ tasks)
      (hcomputes : computes a m) :
      Step computes lossy s { s with tasks := tasks, results := m ::ₘ s.results }
  | reduce (s : State α β) (m : β) (results : Multiset β) (hresults : s.results = m ::ₘ results)
      (hloop : s.unposted = []) (hcounted : s.uncounted = 0) :
      Step computes lossy s (s.reduce m results)
  | lose (s : State α β) (a : α) (tasks : Multiset α) (htasks : s.tasks = a ::ₘ tasks)
      (hlossy : lossy) : Step computes lossy s { s with tasks := tasks }
  | drop (s : State α β) (m : β) (results : Multiset β) (hresults : s.results = m ::ₘ results)
      (hlossy : lossy) : Step computes lossy s { s with results := results }

variable {computes : α → β → Prop} {lossy : Prop} {s t : State α β}

theorem Bounded.step (hs : Bounded s) (hstep : Step computes lossy s t) : Bounded t := by
  unfold Bounded State.outstanding at hs ⊢
  cases hstep with
  | request job hloop hcounted =>
      simp only [hloop, List.length_nil] at hs
      simp only [List.flatten_append, List.flatten_singleton, List.length_append]
      omega
  | post a rest hloop hcounted =>
      simp only [hloop, List.length_cons] at hs
      simp only [card_cons]
      omega
  | count hposted => exact hs
  | compute a m tasks htasks hcomputes =>
      simp only [htasks, card_cons] at hs ⊢
      omega
  | reduce m results hresults hloop hcounted =>
      simp only [hresults, State.reduce, card_cons] at hs ⊢
      omega
  | lose a tasks htasks hlossy =>
      simp only [htasks, card_cons] at hs ⊢
      omega
  | drop m results hresults hlossy =>
      simp only [hresults, card_cons] at hs ⊢
      omega

/-- What is to be posted and what is under way has been requested. -/
structure Requested (s : State α β) : Prop where
  unposted : ∀ a ∈ s.unposted, a ∈ s.requests.flatten
  tasks : ∀ a ∈ s.tasks, a ∈ s.requests.flatten

theorem Requested.step (hs : Requested s) (hstep : Step computes lossy s t) : Requested t := by
  cases hstep with
  | request job hloop hcounted =>
      refine ⟨fun a ha => ?_, fun a ha => ?_⟩
      · rw [List.flatten_append, List.flatten_singleton]
        exact List.mem_append_right _ ha
      · rw [List.flatten_append, List.flatten_singleton]
        exact List.mem_append_left _ (hs.tasks a ha)
  | post a rest hloop hcounted =>
      have hunposted := hs.unposted
      rw [hloop, List.forall_mem_cons] at hunposted
      refine ⟨hunposted.2, fun b hb => ?_⟩
      rcases mem_cons.mp hb with rfl | hb
      · exact hunposted.1
      · exact hs.tasks b hb
  | compute a m tasks htasks hcomputes =>
      exact ⟨hs.unposted, fun b hb => hs.tasks b (htasks ▸ mem_cons_of_mem hb)⟩
  | lose a tasks htasks hlossy =>
      exact ⟨hs.unposted, fun b hb => hs.tasks b (htasks ▸ mem_cons_of_mem hb)⟩
  | _ => exact ⟨hs.unposted, hs.tasks⟩

theorem Step.outstanding_le (hstep : Step computes lossy s t) :
    t.requests = s.requests ∧ t.outstanding ≤ s.outstanding ∨
      ∃ job, t.requests = s.requests ++ [job] ∧ t.outstanding ≤ s.outstanding + job.length := by
  unfold State.outstanding
  cases hstep with
  | request job hloop hcounted =>
      refine .inr ⟨job, rfl, ?_⟩
      simp only
      omega
  | post a rest hloop hcounted =>
      refine .inl ⟨rfl, ?_⟩
      simp only [hloop, List.length_cons, card_cons]
      omega
  | count hposted => exact .inl ⟨rfl, le_rfl⟩
  | compute a m tasks htasks hcomputes =>
      refine .inl ⟨rfl, ?_⟩
      simp only [htasks, card_cons]
      omega
  | reduce m results hresults hloop hcounted =>
      refine .inl ⟨rfl, ?_⟩
      simp only [hresults, State.reduce, card_cons]
      omega
  | lose a tasks htasks hlossy =>
      refine .inl ⟨rfl, ?_⟩
      simp only [htasks, card_cons]
      omega
  | drop m results hresults hlossy =>
      refine .inl ⟨rfl, ?_⟩
      simp only [hresults, card_cons]
      omega

/-! ## Nothing is lost -/

/-- Each requested task has not been posted, is under way, or has been computed;
each computed result is on its way or has been reduced. -/
def Settled (computes : α → β → Prop) (s : State α β) : Prop :=
  ∃ done : Multiset (α × β), (∀ p ∈ done, computes p.1 p.2) ∧
    done.map Prod.fst + s.tasks + s.unposted = (s.requests.flatten : Multiset α) ∧
    done.map Prod.snd = s.reduced + s.results

theorem Settled.step (hs : Settled computes s) (hstep : Step computes False s t) :
    Settled computes t := by
  obtain ⟨done, hdone, hrequested, hcomputed⟩ := hs
  cases hstep with
  | request job hloop hcounted =>
      refine ⟨done, hdone, ?_, hcomputed⟩
      simp only [hloop, coe_nil, add_zero] at hrequested
      change _ = ((s.requests ++ [job]).flatten : Multiset α)
      rw [List.flatten_append, List.flatten_singleton, ← coe_add, ← hrequested]
  | post a rest hloop hcounted =>
      refine ⟨done, hdone, ?_, hcomputed⟩
      simp only [hloop, ← cons_coe] at hrequested
      rw [← hrequested, add_cons, add_cons, cons_add]
  | count hposted => exact ⟨done, hdone, hrequested, hcomputed⟩
  | compute a m tasks htasks hcomputes =>
      refine ⟨(a, m) ::ₘ done, ?_, ?_, ?_⟩
      · intro p hp
        rcases mem_cons.mp hp with rfl | hp
        · exact hcomputes
        · exact hdone p hp
      · rw [← hrequested, htasks, map_cons, cons_add, add_cons]
      · rw [map_cons, hcomputed, add_cons]
  | reduce m results hresults hloop hcounted =>
      refine ⟨done, hdone, hrequested, ?_⟩
      rw [hcomputed, hresults, State.reduce, add_cons, cons_add]
  | lose a tasks htasks hlossy => exact hlossy.elim
  | drop m results hresults hlossy => exact hlossy.elim

variable [OrderBot β]

structure Inv (computes : α → β → Prop) (s : State α β) : Prop where
  counted : s.taskCount + s.uncounted = card s.tasks + card s.results
  best_eq : s.best = s.reduced.sup
  settled : Settled computes s

theorem Inv.step (hs : Inv computes s) (hstep : Step computes False s t) : Inv computes t := by
  have hcount := hs.counted
  refine ⟨?_, ?_, hs.settled.step hstep⟩
  · cases hstep with
    | request job hloop hcounted => exact hcount
    | post a rest hloop hcounted =>
        simp only [card_cons]
        omega
    | count hposted =>
        simp only
        omega
    | compute a m tasks htasks hcomputes =>
        simp only [htasks, card_cons] at hcount ⊢
        omega
    | reduce m results hresults hloop hcounted =>
        simp only [hresults, State.reduce, card_cons] at hcount ⊢
        omega
    | lose a tasks htasks hlossy => exact hlossy.elim
    | drop m results hresults hlossy => exact hlossy.elim
  · cases hstep with
    | reduce m results hresults hloop hcounted =>
        rw [State.reduce, sup_cons, hs.best_eq, sup_comm]
    | lose a tasks htasks hlossy => exact hlossy.elim
    | drop m results hresults hlossy => exact hlossy.elim
    | _ => exact hs.best_eq

theorem Inv.conserved (hs : Inv computes s) :
    s.outstanding + card s.reduced = s.requests.flatten.length := by
  obtain ⟨done, -, hrequested, hcomputed⟩ := hs.settled
  have hposted := congrArg card hrequested
  have hdone := congrArg card hcomputed
  simp only [card_add, card_map, coe_card] at hposted hdone
  unfold State.outstanding
  omega

theorem Inv.taskCount_eq (hs : Inv computes s) (hloop : s.unposted = [])
    (hcounted : s.uncounted = 0) : s.taskCount = s.outstanding := by
  have hcount := hs.counted
  rw [hcounted] at hcount
  simp only [State.outstanding, hloop, List.length_nil]
  omega

theorem Inv.requested (hs : Inv computes s) {a : α} (ha : a ∈ s.tasks) :
    a ∈ s.requests.flatten := by
  obtain ⟨done, -, hrequested, -⟩ := hs.settled
  rw [← mem_coe, ← hrequested]
  exact mem_add.mpr (.inl (mem_add.mpr (.inr ha)))

def start : State α β := ⟨[], [], 0, 0, 0, 0, 0, ⊥, []⟩

theorem bounded_start : Bounded (start : State α β) := by simp [Bounded, State.outstanding, start]

theorem requested_start : Requested (start : State α β) :=
  ⟨fun _ ha => absurd ha List.not_mem_nil, fun _ ha => absurd ha (notMem_zero _)⟩

theorem inv_start : Inv computes (start : State α β) where
  counted := by simp [start]
  best_eq := rfl
  settled := ⟨0, by simp, rfl, rfl⟩

/-! ## The answers -/

section Answers

variable {value : α → β}

/-- The best result of a job, when each task has one value. -/
def jobBest (value : α → β) (job : List α) : β := ((job : Multiset α).map value).sup

/-- What a first job and its successors answer if each finishes before the next
starts: the best since the beginning. -/
def runningBests (value : α → β) (jobs : List (List α)) : List β :=
  (List.range jobs.length).map fun i => jobBest value (jobs.take (i + 1)).flatten

theorem jobBest_append (job₁ job₂ : List α) :
    jobBest value (job₁ ++ job₂) = jobBest value job₁ ⊔ jobBest value job₂ := by
  rw [jobBest, ← coe_add, map_add, Multiset.sup_add, jobBest, jobBest]

theorem runningBests_snoc (jobs : List (List α)) (job : List α) :
    runningBests value (jobs ++ [job]) =
      runningBests value jobs ++ [jobBest value (jobs ++ [job]).flatten] := by
  have hold : ∀ i ∈ List.range jobs.length, (jobs ++ [job]).take (i + 1) = jobs.take (i + 1) := by
    intro i hi
    exact List.take_append_of_le_length (Nat.succ_le_of_lt (List.mem_range.mp hi))
  have hall : (jobs ++ [job]).take (jobs.length + 1) = jobs ++ [job] := by
    apply List.take_of_length_le
    simp
  rw [runningBests, List.length_append, List.length_singleton, List.range_succ, List.map_append,
    List.map_singleton, hall]
  congr 1
  apply List.map_congr_left
  intro i hi
  rw [hold i hi]

theorem Inv.best_of_done (hs : Inv computes s)
    (hvalue : ∀ a ∈ s.requests.flatten, ∀ m, computes a m → m = value a)
    (hdone : s.outstanding = 0) : s.best = jobBest value s.requests.flatten := by
  obtain ⟨done, hcomputes, hrequested, hcomputed⟩ := hs.settled
  obtain ⟨⟨hunposted, htasks⟩, hresults⟩ :
      (s.unposted.length = 0 ∧ card s.tasks = 0) ∧ card s.results = 0 := by
    simpa [State.outstanding, Nat.add_eq_zero_iff] using hdone
  rw [List.length_eq_zero_iff.mp hunposted, card_eq_zero.mp htasks, coe_nil, add_zero,
    add_zero] at hrequested
  rw [card_eq_zero.mp hresults, add_zero] at hcomputed
  have hsnd : done.map Prod.snd = (done.map Prod.fst).map value := by
    rw [map_map]
    apply map_congr rfl
    intro p hp
    apply hvalue p.1 _ p.2 (hcomputes p hp)
    rw [← mem_coe, ← hrequested]
    exact mem_map_of_mem Prod.fst hp
  rw [hs.best_eq, ← hcomputed, hsnd, hrequested, jobBest]

/-- Requests came one at a time so far: what is outstanding is of the last, and each
finished one is answered by the best since the beginning. -/
structure InTurn (value : α → β) (s : State α β) : Prop where
  last : s.outstanding ≤ (s.requests.getLastD []).length
  answers : s.answers = runningBests value (finished s)

theorem inTurn_start : InTurn value (start : State α β) where
  last := by simp [start, State.outstanding]
  answers := by simp [finished, start, State.outstanding, runningBests]

theorem answered_congr (hanswered : s.answers = runningBests value (finished s))
    (hrequests : t.requests = s.requests) (houtstanding : t.outstanding = s.outstanding)
    (hanswers : t.answers = s.answers) : t.answers = runningBests value (finished t) := by
  rw [hanswers, finished, hrequests, houtstanding]
  exact hanswered

/-- The last result of a request is the one that brings the counter to zero. -/
theorem answers_reduce {m : β} {results : Multiset β} (hs : Inv computes s)
    (ht : Inv computes (s.reduce m results)) (hresults : s.results = m ::ₘ results)
    (hloop : s.unposted = []) (hcounted : s.uncounted = 0)
    (hvalue : ∀ a ∈ s.requests.flatten, ∀ m, computes a m → m = value a)
    (hanswered : s.answers = runningBests value (finished s)) :
    (s.reduce m results).answers = runningBests value (finished (s.reduce m results)) := by
  have hbusy : s.outstanding ≠ 0 := by
    simp only [State.outstanding, hresults, card_cons]
    omega
  have hcount : s.taskCount - 1 = (s.reduce m results).outstanding :=
    ht.taskCount_eq hloop hcounted
  have hbest : (s.reduce m results).outstanding = 0 →
      s.best ⊔ m = jobBest value s.requests.flatten := ht.best_of_done hvalue
  have hanswers : (s.reduce m results).answers =
      if (s.reduce m results).outstanding = 0 then s.answers ++ [s.best ⊔ m]
      else s.answers := by
    rw [State.reduce, hcount]
    exact if_congr Int.natCast_eq_zero rfl rfl
  unfold finished at hanswered ⊢
  rw [if_neg hbusy] at hanswered
  by_cases hzero : (s.reduce m results).outstanding = 0
  · have hlast : s.requests ≠ [] := by
      intro hnone
      have hall := hs.conserved
      rw [hnone, List.flatten_nil, List.length_nil] at hall
      omega
    rw [hanswers, if_pos hzero, if_pos hzero, hbest hzero, hanswered]
    change _ = runningBests value s.requests
    conv_rhs => rw [← List.dropLast_append_getLast hlast, runningBests_snoc]
    rw [List.dropLast_append_getLast hlast]
  · rw [hanswers, if_neg hzero, if_neg hzero]
    exact hanswered

theorem InTurn.answers_step (hs : Inv computes s) (hturn : InTurn value s)
    (hstep : Step computes False s t)
    (hvalue : ∀ a ∈ t.requests.flatten, ∀ m, computes a m → m = value a)
    (hquiet : ∀ job, t.requests = s.requests ++ [job] → s.outstanding = 0 ∧ job ≠ []) :
    t.answers = runningBests value (finished t) := by
  have ht := hs.step hstep
  have hanswered := hturn.answers
  cases hstep with
  | request job hloop hcounted =>
      obtain ⟨hidle, hjob⟩ := hquiet job rfl
      have hbusy : State.outstanding { s with requests := s.requests ++ [job], unposted := job } ≠
          0 := by
        have hpos := List.length_pos_of_ne_nil hjob
        simp only [State.outstanding]
        omega
      rw [finished, if_pos hidle] at hanswered
      rw [finished, if_neg hbusy, List.dropLast_concat]
      exact hanswered
  | post a rest hloop hcounted =>
      have hsame : State.outstanding
          { s with unposted := rest, uncounted := 1, tasks := a ::ₘ s.tasks } = s.outstanding := by
        simp only [State.outstanding, hloop, List.length_cons, card_cons]
        omega
      exact answered_congr hanswered rfl hsame rfl
  | count hposted => exact hanswered
  | compute a m tasks htasks hcomputes =>
      have hsame : State.outstanding { s with tasks := tasks, results := m ::ₘ s.results } =
          s.outstanding := by
        simp only [State.outstanding, htasks, card_cons]
        omega
      exact answered_congr hanswered rfl hsame rfl
  | reduce m results hresults hloop hcounted =>
      exact answers_reduce hs ht hresults hloop hcounted hvalue hanswered
  | lose a tasks htasks hlossy => exact hlossy.elim
  | drop m results hresults hlossy => exact hlossy.elim

theorem InTurn.step (hs : Inv computes s) (hturn : InTurn value s)
    (hstep : Step computes False s t)
    (hvalue : ∀ a ∈ t.requests.flatten, ∀ m, computes a m → m = value a)
    (hquiet : ∀ job, t.requests = s.requests ++ [job] → s.outstanding = 0 ∧ job ≠ []) :
    InTurn value t where
  last := by
    rcases hstep.outstanding_le with ⟨hsame, hle⟩ | ⟨job, hmore, hle⟩
    · rw [hsame]
      exact hle.trans hturn.last
    · rw [hmore, List.getLastD_concat]
      rwa [(hquiet job hmore).1, zero_add] at hle
  answers := hturn.answers_step hs hstep hvalue hquiet

/-- Running bests are the jobs' own when each job is at least as good as all
before it. -/
def Ascending (value : α → β) (jobs : List (List α)) : Prop :=
  runningBests value jobs = jobs.map (jobBest value)

theorem ascending_snoc {jobs : List (List α)} {job : List α} (hjobs : Ascending value jobs)
    (hle : jobBest value jobs.flatten ≤ jobBest value job) : Ascending value (jobs ++ [job]) := by
  unfold Ascending at hjobs ⊢
  rw [runningBests_snoc, hjobs, List.map_append, List.map_singleton, List.flatten_append,
    List.flatten_singleton, jobBest_append, sup_eq_right.mpr hle]

theorem Ascending.dropLast {jobs : List (List α)} (hjobs : Ascending value jobs) :
    Ascending value jobs.dropLast := by
  rcases List.eq_nil_or_concat' jobs with rfl | ⟨init, job, rfl⟩
  · rfl
  · unfold Ascending at hjobs ⊢
    rw [runningBests_snoc, List.map_append] at hjobs
    rw [List.dropLast_concat]
    exact (List.append_inj' hjobs rfl).1

end Answers

end ScatterGather
