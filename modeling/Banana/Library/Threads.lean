import Mathlib.Algebra.BigOperators.Group.Finset.Piecewise
import Mathlib.Algebra.BigOperators.Ring.Finset
import Mathlib.Algebra.Order.BigOperators.Group.Finset
import Mathlib.Data.Fintype.BigOperators

/-!
# Counting over a finite set of threads

A system of threads keeps what each thread is doing in a function `τ → β`,
and a step changes it at one thread.  `total g f` adds up `g` over all the
threads and `count p f` counts the threads with `p`; both change at an
update by what the one thread contributes.
-/

namespace Threads

open Finset

variable {τ β M : Type*} [Fintype τ] [AddCommMonoid M]

/-- The sum over all threads of what each of them holds. -/
def total (g : β → M) (f : τ → β) : M := ∑ t, g (f t)

def count (p : β → Bool) (f : τ → β) : ℕ := (univ.filter fun t => p (f t) = true).card

theorem count_eq_total (p : β → Bool) (f : τ → β) :
    count p f = total (fun b => if p b then 1 else 0) f := by
  rw [count, total, card_filter]

theorem count_pos_iff {p : β → Bool} {f : τ → β} : 0 < count p f ↔ ∃ t, p (f t) = true := by
  simp [count, card_pos, Finset.Nonempty]

theorem count_eq_zero_iff {p : β → Bool} {f : τ → β} :
    count p f = 0 ↔ ∀ t, p (f t) = false := by
  simp [count, card_eq_zero, filter_eq_empty_iff]

theorem count_le_card (p : β → Bool) (f : τ → β) : count p f ≤ Fintype.card τ :=
  card_filter_le _ _

theorem count_eq_card_iff {p : β → Bool} {f : τ → β} :
    count p f = Fintype.card τ ↔ ∀ t, p (f t) = true := by
  rw [count, ← card_univ, card_filter_eq_iff]
  simp

theorem count_add_count_not (p : β → Bool) (f : τ → β) :
    count p f + count (fun b => !p b) f = Fintype.card τ := by
  have hsplit := card_filter_add_card_filter_not (s := univ) fun t => p (f t) = true
  simpa [count] using hsplit

theorem sum_count {ι : Type*} [Fintype ι] (p : ι → β → Bool) (f : τ → β) :
    ∑ i, count (p i) f = total (fun b => ∑ i, if p i b then 1 else 0) f := by
  simp only [count_eq_total, total]
  exact sum_comm

theorem total_lt {g : β → ℕ} {f : τ → β} {n : ℕ} (hle : ∀ t, g (f t) ≤ n) {t : τ}
    (hlt : g (f t) < n) : total g f < n * Fintype.card τ := by
  have hsum := sum_lt_sum (fun u _ => hle u) ⟨t, mem_univ t, hlt⟩
  rwa [sum_const_nat fun _ _ => rfl, card_univ, Nat.mul_comm] at hsum

theorem le_total (g : β → ℕ) (f : τ → β) (t : τ) : g (f t) ≤ total g f :=
  single_le_sum (f := fun u => g (f u)) (fun _ _ => Nat.zero_le _) (mem_univ t)

variable [DecidableEq τ]

theorem total_update (g : β → M) (f : τ → β) (t : τ) (b : β) :
    total g (Function.update f t b) + g (f t) = total g f + g b := by
  have hupd : (fun u => g (Function.update f t b u)) =
      Function.update (fun u => g (f u)) t (g b) := by
    funext u
    by_cases hu : u = t
    · subst u
      simp
    · simp [Function.update_of_ne hu]
  unfold total
  rw [hupd, sum_update_of_mem (mem_univ t),
    sum_eq_add_sum_sdiff_singleton_of_mem (mem_univ t) fun u => g (f u),
    add_right_comm, add_comm (g b), add_right_comm]

theorem count_update (p : β → Bool) (f : τ → β) (t : τ) (b : β) :
    count p (Function.update f t b) + (if p (f t) then 1 else 0) =
      count p f + if p b then 1 else 0 := by
  rw [count_eq_total, count_eq_total]
  exact total_update (fun b => if p b then 1 else 0) f t b

end Threads
