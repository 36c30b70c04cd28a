import Banana.Library.Transition
import Mathlib.Algebra.BigOperators.Group.Finset.Basic
import Mathlib.Data.Fintype.Card
import Mathlib.Data.Multiset.DershowitzManna
import Mathlib.Logic.Relation
import Mathlib.Order.WellFounded

/-!
# Progress

Two reasons for which a system cannot stand still for ever.  If everybody who is
stuck waits for somebody who is stuck, some of them wait for each other in a circle,
so an order on those who wait leaves nobody stuck.  And if work is taken from one
place at a time and only creates work of lower rank, it comes to an end, however much
of it a step creates.
-/

namespace Progress

open Transition

/-! ## Waiting -/

section Waiting

variable {κ : Type*} {WaitsFor : κ → κ → Prop} {Stuck : κ → Prop}

/-- Some of those who are stuck wait for each other in a circle. -/
theorem exists_cycle [Finite κ] (hstuck : ∀ i, Stuck i → ∃ j, WaitsFor i j ∧ Stuck j)
    {i : κ} (hi : Stuck i) : ∃ k, Relation.TransGen WaitsFor k k := by
  by_contra hno
  push Not at hno
  -- whoever is waited for, even through others, comes before those who wait
  let Before : κ → κ → Prop := fun j k => Relation.TransGen WaitsFor k j
  have htrans : IsTrans κ Before := ⟨fun _ _ _ hjk hkl => hkl.trans hjk⟩
  have hirrefl : Std.Irrefl Before := ⟨hno⟩
  obtain ⟨k, hk, hfirst⟩ :=
    (Finite.wellFounded_of_trans_of_irrefl Before).has_min {k | Stuck k} ⟨i, hi⟩
  obtain ⟨j, hwaits, hj⟩ := hstuck k hk
  exact hfirst j hj (Relation.TransGen.single hwaits)

theorem rank_lt_of_transGen {rank : κ → ℕ} (hrank : ∀ i j, WaitsFor i j → rank j < rank i)
    {i j : κ} (h : Relation.TransGen WaitsFor i j) : rank j < rank i := by
  induction h with
  | single hwaits => exact hrank _ _ hwaits
  | tail _ hwaits ih => exact (hrank _ _ hwaits).trans ih

/-- In an order nobody waits for himself. -/
theorem no_cycle_of_rank {rank : κ → ℕ} (hrank : ∀ i j, WaitsFor i j → rank j < rank i)
    (i : κ) : ¬ Relation.TransGen WaitsFor i i := fun h =>
  lt_irrefl _ (rank_lt_of_transGen hrank h)

end Waiting

/-! ## Work of lower rank -/

section Work

open Finset

variable {κ : Type*}

/-- Work is done at one place; elsewhere there is more of it at lower ranks only. -/
def Descends (rank : κ → ℕ) (f' f : κ → ℕ) : Prop :=
  ∃ k, f' k < f k ∧ ∀ j, rank k ≤ rank j → f' j ≤ f j

variable [Fintype κ]

/-- The rank of a place once for every piece of work there. -/
def pile (rank f : κ → ℕ) : Multiset ℕ := ∑ k, f k • {rank k}

theorem pile_add (rank f g : κ → ℕ) :
    pile rank (fun k => f k + g k) = pile rank f + pile rank g := by
  simp only [pile, add_nsmul, sum_add_distrib]

theorem mem_pile {rank f : κ → ℕ} {r : ℕ} : r ∈ pile rank f ↔ ∃ k, rank k = r ∧ 0 < f k := by
  simp only [pile, Multiset.mem_sum, mem_univ, true_and, Multiset.nsmul_singleton,
    Multiset.mem_replicate, Nat.pos_iff_ne_zero]
  constructor
  · rintro ⟨k, hne, rfl⟩
    exact ⟨k, rfl, hne⟩
  · rintro ⟨k, rfl, hne⟩
    exact ⟨k, hne, rfl⟩

theorem pile_lt {rank f' f : κ → ℕ} (h : Descends rank f' f) :
    Multiset.IsDershowitzMannaLT (pile rank f') (pile rank f) := by
  obtain ⟨k, hlt, hle⟩ := h
  have hmore : rank k ∈ pile rank fun j => f j - f' j :=
    mem_pile.mpr ⟨k, rfl, Nat.sub_pos_of_lt hlt⟩
  refine ⟨pile rank fun j => min (f j) (f' j), pile rank fun j => f' j - f j,
    pile rank fun j => f j - f' j, ?_, ?_, ?_, fun r hr => ⟨rank k, hmore, ?_⟩⟩
  · rintro hzero
    rw [hzero] at hmore
    exact Multiset.notMem_zero _ hmore
  · rw [← pile_add]
    refine congrArg _ (funext fun j => ?_)
    omega
  · rw [← pile_add]
    refine congrArg _ (funext fun j => ?_)
    omega
  · obtain ⟨j, rfl, hpos⟩ := mem_pile.mp hr
    by_contra hge
    have := hle j (not_lt.mp hge)
    omega

theorem wellFounded_descends (rank : κ → ℕ) : WellFounded (Descends rank) :=
  Subrelation.wf (fun h => pile_lt h)
    (InvImage.wf (pile rank) Multiset.wellFounded_isDershowitzMannaLT)

end Work

/-! ## Coming to rest -/

section Rest

variable {σ α β : Type*} {step : σ → α → Option σ} {I : σ → Prop} {r : β → β → Prop} {μ : σ → β}

theorem no_infinite_run (hwf : WellFounded r)
    (hI : ∀ s a t, I s → step s a = some t → I t)
    (hμ : ∀ s a t, I s → step s a = some t → r (μ t) (μ s)) {f : ℕ → σ} (hf : I (f 0)) :
    ∃ n, ∀ a, step (f n) a ≠ some (f (n + 1)) := by
  by_contra hrun
  push Not at hrun
  have hall : ∀ n, I (f n) := by
    intro n
    induction n with
    | zero => exact hf
    | succ n ih =>
        obtain ⟨a, ha⟩ := hrun n
        exact hI _ a _ ih ha
  have hdesc : ∀ n, r (μ (f (n + 1))) (μ (f n)) := by
    intro n
    obtain ⟨a, ha⟩ := hrun n
    exact hμ _ a _ (hall n) ha
  exact (wellFounded_iff_isEmpty_descending_chain.mp hwf).false ⟨fun n => μ (f n), hdesc⟩

theorem exists_run_to_rest (hwf : WellFounded r)
    (hI : ∀ s a t, I s → step s a = some t → I t)
    (hμ : ∀ s a t, I s → step s a = some t → r (μ t) (μ s)) {s : σ} (hs : I s) :
    ∃ as u, run step s as = some u ∧ ∀ a, step u a = none := by
  induction hn : μ s using hwf.induction generalizing s with
  | _ b ih =>
      subst hn
      by_cases hrest : ∀ a, step s a = none
      · exact ⟨[], s, rfl, hrest⟩
      · push Not at hrest
        obtain ⟨a, ha⟩ := hrest
        obtain ⟨t, ht⟩ := Option.ne_none_iff_exists'.mp ha
        obtain ⟨as, u, hrun, hrest⟩ := ih (μ t) (hμ s a t hs ht) (hI s a t hs ht) rfl
        exact ⟨a :: as, u, run_cons_eq_some.mpr ⟨t, ht, hrun⟩, hrest⟩

end Rest

end Progress
