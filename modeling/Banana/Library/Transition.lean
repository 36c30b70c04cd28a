import Mathlib.Algebra.GroupWithZero.Nat
import Mathlib.Data.List.Basic
import Mathlib.Data.List.Induction
import Mathlib.Data.Nat.Init
import Mathlib.Tactic.Common

/-!
# Runs of partial step functions

A system is a step function `σ → α → Option σ`: the action carries every
choice of the scheduler and the environment, and `none` says that the
action is not enabled.  `run` iterates the step function over a list of
actions.  The rules below turn a fact about one step into a fact about
every run, with or without a condition on the steps taken.
-/

namespace Transition

variable {σ α : Type*} {step : σ → α → Option σ}

/-- The state after a list of actions, if each of them was enabled. -/
def run (step : σ → α → Option σ) : σ → List α → Option σ
  | s, [] => some s
  | s, a :: as => (step s a).bind fun u => run step u as

@[simp] theorem run_nil (s : σ) : run step s [] = some s := rfl

theorem run_cons (s : σ) (a : α) (as : List α) :
    run step s (a :: as) = (step s a).bind fun u => run step u as := rfl

theorem run_cons_eq_some {s u : σ} {a : α} {as : List α} :
    run step s (a :: as) = some u ↔ ∃ t, step s a = some t ∧ run step t as = some u := by
  rw [run_cons, Option.bind_eq_some_iff]

theorem run_singleton (s : σ) (a : α) : run step s [a] = step s a := by
  rw [run_cons]
  cases step s a <;> rfl

theorem run_append (s : σ) (as bs : List α) :
    run step s (as ++ bs) = (run step s as).bind fun u => run step u bs := by
  induction as generalizing s with
  | nil => rfl
  | cons a as ih =>
      rw [List.cons_append, run_cons, run_cons]
      cases step s a with
      | none => rfl
      | some t => exact ih t

theorem run_concat_eq_some {s u : σ} {as : List α} {a : α} :
    run step s (as ++ [a]) = some u ↔ ∃ t, run step s as = some t ∧ step t a = some u := by
  rw [run_append, Option.bind_eq_some_iff]
  simp only [run_singleton]

/-- A step function that allows less has fewer runs. -/
theorem run_mono {step' : σ → α → Option σ} (hle : ∀ s a t, step s a = some t → step' s a = some t)
    {s u : σ} {as : List α} (hrun : run step s as = some u) : run step' s as = some u := by
  induction as generalizing s with
  | nil => exact hrun
  | cons a as ih =>
      obtain ⟨t, ht, hu⟩ := run_cons_eq_some.mp hrun
      exact run_cons_eq_some.mpr ⟨t, hle s a t ht, ih hu⟩

/-! ## What happened -/

/-- The states and actions of a run.  What a run puts out is a `flatMap` of it. -/
def trace (step : σ → α → Option σ) : σ → List α → List (σ × α)
  | _, [] => []
  | s, a :: as => (s, a) :: (step s a).elim [] fun t => trace step t as

@[simp] theorem trace_nil (s : σ) : trace step s [] = [] := rfl

theorem trace_cons {s t : σ} {a : α} (ht : step s a = some t) (as : List α) :
    trace step s (a :: as) = (s, a) :: trace step t as := by
  rw [trace, ht, Option.elim_some]

theorem trace_append {s u : σ} {as : List α} (hrun : run step s as = some u) (bs : List α) :
    trace step s (as ++ bs) = trace step s as ++ trace step u bs := by
  induction as generalizing s with
  | nil => rw [← Option.some.inj hrun, trace_nil, List.nil_append, List.nil_append]
  | cons a as ih =>
      obtain ⟨t, ht, hu⟩ := run_cons_eq_some.mp hrun
      rw [List.cons_append, trace_cons ht, trace_cons ht, ih hu, List.cons_append]

theorem trace_concat {s u : σ} {as : List α} (hrun : run step s as = some u) (a : α) :
    trace step s (as ++ [a]) = trace step s as ++ [(u, a)] := by
  rw [trace_append hrun, trace]
  cases step u a <;> rfl

theorem trace_map_snd {s u : σ} {as : List α} (hrun : run step s as = some u) :
    (trace step s as).map Prod.snd = as := by
  induction as generalizing s with
  | nil => rfl
  | cons a as ih =>
      obtain ⟨t, ht, hu⟩ := run_cons_eq_some.mp hrun
      rw [trace_cons ht, List.map_cons, ih hu]

theorem trace_mono {step' : σ → α → Option σ}
    (hle : ∀ s a t, step s a = some t → step' s a = some t) {s u : σ} {as : List α}
    (hrun : run step s as = some u) : trace step' s as = trace step s as := by
  induction as generalizing s with
  | nil => rfl
  | cons a as ih =>
      obtain ⟨t, ht, hu⟩ := run_cons_eq_some.mp hrun
      rw [trace_cons ht, trace_cons (hle s a t ht), ih hu]

/-! ## Invariants -/

/-- An invariant of states and of what has happened so far. -/
theorem run_trace_invariant {I : σ → List (σ × α) → Prop} {A : α → Prop}
    (hstep : ∀ s h a t, I s h → A a → step s a = some t → I t (h ++ [(s, a)]))
    {s u : σ} {as : List α} (hs : I s []) (has : ∀ a ∈ as, A a)
    (hrun : run step s as = some u) : I u (trace step s as) := by
  induction as using List.reverseRecOn generalizing u with
  | nil => exact Option.some.inj hrun ▸ hs
  | append_singleton as a ih =>
      obtain ⟨t, ht, hu⟩ := run_concat_eq_some.mp hrun
      have hbefore := ih (fun b hb => has b (List.mem_append_left _ hb)) ht
      rw [trace_concat ht]
      exact hstep t _ a u hbefore (has a (by simp)) hu

theorem run_invariant {I : σ → Prop}
    (hstep : ∀ s a t, I s → step s a = some t → I t)
    {s u : σ} {as : List α} (hs : I s) (hrun : run step s as = some u) : I u := by
  induction as generalizing s with
  | nil => exact Option.some.inj hrun ▸ hs
  | cons a as ih =>
      obtain ⟨t, ht, hu⟩ := run_cons_eq_some.mp hrun
      exact ih (hstep s a t hs ht) hu

/-! ## Runs whose steps all meet a condition -/

/-- Every step of the run meets `P`, a condition on the state before the step
and the action. -/
def Along (P : σ → α → Prop) (step : σ → α → Option σ) : σ → List α → Prop
  | _, [] => True
  | s, a :: as => P s a ∧ ∀ t, step s a = some t → Along P step t as

variable {P : σ → α → Prop}

@[simp] theorem along_nil (s : σ) : Along P step s [] := trivial

theorem along_cons {s t : σ} {a : α} {as : List α} (ht : step s a = some t) :
    Along P step s (a :: as) ↔ P s a ∧ Along P step t as := by
  constructor
  · rintro ⟨hp, hrest⟩
    exact ⟨hp, hrest t ht⟩
  · rintro ⟨hp, hrest⟩
    refine ⟨hp, fun u hu => ?_⟩
    rw [ht] at hu
    exact Option.some.inj hu ▸ hrest

theorem along_append {s u : σ} {as bs : List α} (hrun : run step s as = some u) :
    Along P step s (as ++ bs) ↔ Along P step s as ∧ Along P step u bs := by
  induction as generalizing s with
  | nil =>
      obtain rfl := Option.some.inj hrun
      rw [List.nil_append, and_iff_right (along_nil s)]
  | cons a as ih =>
      obtain ⟨t, ht, hu⟩ := run_cons_eq_some.mp hrun
      rw [List.cons_append, along_cons ht, along_cons ht, ih hu, and_assoc]

instance along_decidable [∀ s a, Decidable (P s a)] :
    ∀ (s : σ) (as : List α), Decidable (Along P step s as)
  | _, [] => isTrue trivial
  | s, a :: as =>
      match ht : step s a with
      | none => decidable_of_iff (P s a) ⟨fun hp => ⟨hp, by simp [ht]⟩, And.left⟩
      | some t =>
          haveI := along_decidable t as
          decidable_of_iff (P s a ∧ Along P step t as) (along_cons ht).symm

/-- Two conditions that agree on the steps of reachable states. -/
theorem along_congr {Q : σ → α → Prop} {I : σ → Prop}
    (hI : ∀ s a t, I s → step s a = some t → I t)
    (hPQ : ∀ s a t, I s → step s a = some t → (P s a ↔ Q s a))
    {s u : σ} {as : List α} (hs : I s) (hrun : run step s as = some u) :
    Along P step s as ↔ Along Q step s as := by
  induction as generalizing s with
  | nil => exact Iff.rfl
  | cons a as ih =>
      obtain ⟨t, ht, hu⟩ := run_cons_eq_some.mp hrun
      rw [along_cons ht, along_cons ht, hPQ s a t hs ht, ih (hI s a t hs ht) hu]

/-- Actions that meet the condition in every reachable state. -/
theorem along_of_forall {I : σ → Prop} {A : α → Prop}
    (hI : ∀ s a t, I s → step s a = some t → I t) (h : ∀ s a, I s → A a → P s a)
    {s : σ} {as : List α} (hs : I s) (has : ∀ a ∈ as, A a) : Along P step s as := by
  induction as generalizing s with
  | nil => trivial
  | cons a as ih =>
      exact ⟨h s a hs (has a List.mem_cons_self),
        fun t ht => ih (hI s a t hs ht) fun b hb => has b (List.mem_cons_of_mem a hb)⟩

theorem run_invariant_along {I : σ → Prop}
    (hstep : ∀ s a t, I s → P s a → step s a = some t → I t)
    {s u : σ} {as : List α} (hs : I s) (hal : Along P step s as)
    (hrun : run step s as = some u) : I u := by
  induction as generalizing s with
  | nil => exact Option.some.inj hrun ▸ hs
  | cons a as ih =>
      obtain ⟨t, ht, hu⟩ := run_cons_eq_some.mp hrun
      exact ih (hstep s a t hs hal.1 ht) (hal.2 t ht) hu

/-- An invariant of states and of what has happened so far, for steps that all meet
the condition. -/
theorem run_trace_invariant_along {I : σ → List (σ × α) → Prop}
    (hstep : ∀ s h a t, I s h → P s a → step s a = some t → I t (h ++ [(s, a)]))
    {s u : σ} {h : List (σ × α)} {as : List α} (hs : I s h) (hal : Along P step s as)
    (hrun : run step s as = some u) : I u (h ++ trace step s as) := by
  induction as generalizing s h with
  | nil =>
      rw [trace_nil, List.append_nil]
      exact Option.some.inj hrun ▸ hs
  | cons a as ih =>
      obtain ⟨t, ht, hu⟩ := run_cons_eq_some.mp hrun
      have hrest := ih (hstep s h a t hs hal.1 ht) (hal.2 t ht) hu
      rwa [List.append_assoc, List.singleton_append, ← trace_cons ht] at hrest

theorem forall_mem_trace {I : σ → Prop} (hstep : ∀ s a t, I s → step s a = some t → I t)
    {s u : σ} {as : List α} (hs : I s) (hrun : run step s as = some u) :
    ∀ p ∈ trace step s as, I p.1 := by
  induction as generalizing s with
  | nil => exact fun p hp => absurd hp List.not_mem_nil
  | cons a as ih =>
      obtain ⟨t, ht, hu⟩ := run_cons_eq_some.mp hrun
      intro p hp
      rw [trace_cons ht] at hp
      rcases List.mem_cons.mp hp with rfl | hp
      · exact hs
      · exact ih (hstep s a t hs ht) hu p hp

/-- What each step of a run does, where the steps all meet the condition. -/
theorem forall_mem_trace_along {I : σ → Prop} {Q : σ → α → Prop}
    (hstep : ∀ s a t, I s → P s a → step s a = some t → I t ∧ Q s a)
    {s u : σ} {as : List α} (hs : I s) (hal : Along P step s as)
    (hrun : run step s as = some u) : ∀ p ∈ trace step s as, Q p.1 p.2 := by
  induction as generalizing s with
  | nil => exact fun p hp => absurd hp List.not_mem_nil
  | cons a as ih =>
      obtain ⟨t, ht, hu⟩ := run_cons_eq_some.mp hrun
      obtain ⟨hI, hQ⟩ := hstep s a t hs hal.1 ht
      intro p hp
      rw [trace_cons ht] at hp
      rcases List.mem_cons.mp hp with rfl | hp
      · exact hQ
      · exact ih hI (hal.2 t ht) hu p hp

/-- If a good state stays good exactly when the step meets `P`, then all the
states of a run are good exactly when the run goes along `P`. -/
theorem along_iff_forall_prefix {I G : σ → Prop}
    (hI : ∀ s a t, I s → step s a = some t → I t)
    (hG : ∀ s a t, I s → G s → step s a = some t → (P s a ↔ G t))
    {s u : σ} {as : List α} (hs : I s) (hgood : G s) (hrun : run step s as = some u) :
    Along P step s as ↔ ∀ bs t, bs <+: as → run step s bs = some t → G t := by
  induction as generalizing s with
  | nil =>
      refine ⟨fun _ bs t hbs ht => ?_, fun _ => trivial⟩
      rw [List.prefix_nil.mp hbs] at ht
      exact Option.some.inj ht ▸ hgood
  | cons a as ih =>
      obtain ⟨v, hv, hu⟩ := run_cons_eq_some.mp hrun
      have hnext := hG s a v hs hgood hv
      rw [along_cons hv]
      constructor
      · rintro ⟨hp, hal⟩ bs t hbs ht
        have hall := (ih (hI s a v hs hv) (hnext.mp hp) hu).mp hal
        cases bs with
        | nil => exact Option.some.inj ht ▸ hgood
        | cons b bs =>
            obtain ⟨rfl, htail⟩ := List.cons_prefix_cons.mp hbs
            obtain ⟨w, hw, ht⟩ := run_cons_eq_some.mp ht
            rw [hv] at hw
            exact hall bs t htail (Option.some.inj hw ▸ ht)
      · intro hall
        have hgv : G v := hall [a] v (by simp) (by rw [run_singleton, hv])
        refine ⟨hnext.mpr hgv, (ih (hI s a v hs hv) hgv hu).mpr fun bs t hbs ht => ?_⟩
        exact hall (a :: bs) t (List.cons_prefix_cons.mpr ⟨rfl, hbs⟩)
          (run_cons_eq_some.mpr ⟨v, hv, ht⟩)

/-- If a good state stays good exactly when the step meets `P`, and a state that
is not good never leads to a good one, then a run ends in a good state exactly
when it goes along `P`. -/
theorem along_iff_final {I G : σ → Prop}
    (hI : ∀ s a t, I s → step s a = some t → I t)
    (hback : ∀ s a t, I s → step s a = some t → G t → G s)
    (hG : ∀ s a t, I s → G s → step s a = some t → (P s a ↔ G t))
    {s u : σ} {as : List α} (hs : I s) (hgood : G s) (hrun : run step s as = some u) :
    Along P step s as ↔ G u := by
  induction as generalizing s with
  | nil =>
      rw [← Option.some.inj hrun]
      exact ⟨fun _ => hgood, fun _ => trivial⟩
  | cons a as ih =>
      obtain ⟨t, ht, hu⟩ := run_cons_eq_some.mp hrun
      have hnext := hG s a t hs hgood ht
      rw [along_cons ht]
      by_cases hgt : G t
      · rw [ih (hI s a t hs ht) hgt hu]
        exact ⟨And.right, fun h => ⟨hnext.mpr hgt, h⟩⟩
      · have hstays : I u ∧ ¬ G u := run_invariant (I := fun v => I v ∧ ¬ G v)
          (fun v b w hv hw => ⟨hI v b w hv.1 hw, fun hgw => hv.2 (hback v b w hv.1 hw hgw)⟩)
          ⟨hI s a t hs ht, hgt⟩ hu
        exact ⟨fun h => absurd (hnext.mp h.1) hgt, fun h => absurd h hstays.2⟩

/-! ## Termination -/

/-- When every step lowers a measure, it bounds the length of a run. -/
theorem length_add_measure_le {I : σ → Prop} {μ : σ → ℕ}
    (hI : ∀ s a t, I s → step s a = some t → I t)
    (hμ : ∀ s a t, I s → step s a = some t → μ t < μ s)
    {s u : σ} {as : List α} (hs : I s) (hrun : run step s as = some u) :
    as.length + μ u ≤ μ s := by
  induction as generalizing s with
  | nil =>
      rw [← Option.some.inj hrun]
      simp
  | cons a as ih =>
      obtain ⟨t, ht, hu⟩ := run_cons_eq_some.mp hrun
      have hrest := ih (hI s a t hs ht) hu
      have hlt := hμ s a t hs ht
      rw [List.length_cons]
      omega

/-- When every step lowers a measure, some run comes to rest. -/
theorem exists_run_to_rest {I : σ → Prop} {μ : σ → ℕ}
    (hI : ∀ s a t, I s → step s a = some t → I t)
    (hμ : ∀ s a t, I s → step s a = some t → μ t < μ s) {s : σ} (hs : I s) :
    ∃ as u, run step s as = some u ∧ ∀ a, step u a = none := by
  induction hn : μ s using Nat.strong_induction_on generalizing s with
  | _ n ih =>
      subst n
      by_cases hrest : ∀ a, step s a = none
      · exact ⟨[], s, rfl, hrest⟩
      · push Not at hrest
        obtain ⟨a, ha⟩ := hrest
        obtain ⟨t, ht⟩ := Option.ne_none_iff_exists'.mp ha
        obtain ⟨as, u, hrun, hrest⟩ := ih (μ t) (hμ s a t hs ht) (hI s a t hs ht) rfl
        exact ⟨a :: as, u, run_cons_eq_some.mpr ⟨t, ht, hrun⟩, hrest⟩

end Transition

/-! ## The threads of a concrete run

Named instances, so that a list of actions of numbered threads holds no proofs. -/

instance neZero_one : NeZero 1 := ⟨Nat.succ_ne_zero 0⟩

instance neZero_two : NeZero 2 := ⟨Nat.succ_ne_zero 1⟩

instance neZero_three : NeZero 3 := ⟨Nat.succ_ne_zero 2⟩
