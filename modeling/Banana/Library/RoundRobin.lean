import Mathlib.Data.List.Induction
import Mathlib.Tactic.Common
import Mathlib.Tactic.SplitIfs

/-!
# Dealing a list out in turn

The elements of a list are dealt to `n` hands, the `k`-th one, counted from 1,
to the hand `k % n`.  `share n i xs` is what the hand `i` gets, in order.
-/

namespace RoundRobin

variable {α : Type*} {n : ℕ}

def share (n i : ℕ) (xs : List α) : List α :=
  (xs.zipIdx 1).filterMap fun p => if p.2 % n = i then some p.1 else none

@[simp] theorem share_nil (n i : ℕ) : share n i ([] : List α) = [] := rfl

theorem share_concat (n i : ℕ) (xs : List α) (x : α) :
    share n i (xs ++ [x]) =
      share n i xs ++ if (xs.length + 1) % n = i then [x] else [] := by
  unfold share
  rw [List.zipIdx_append, List.filterMap_append, Nat.add_comm xs.length 1]
  congr 1
  split_ifs with hturn <;> simp [hturn]

/-- After whole rounds everybody has the same, and within a round the hands from 1 on
are one ahead. -/
theorem length_share (hn : 0 < n) {i : ℕ} (hi : i < n) (xs : List α) :
    (share n i xs).length = xs.length / n + if 1 ≤ i ∧ i ≤ xs.length % n then 1 else 0 := by
  induction xs using List.reverseRecOn with
  | nil =>
      rw [share_nil, List.length_nil, Nat.zero_div, Nat.zero_mod, if_neg (by omega)]
  | append_singleton xs x ih =>
      have hlt := Nat.mod_lt xs.length hn
      have hdiv := Nat.div_add_mod xs.length n
      rw [share_concat, List.length_append, ih, List.length_append, List.length_singleton]
      by_cases hround : xs.length % n + 1 = n
      · have hall : xs.length + 1 = n * (xs.length / n + 1) := by
          rw [Nat.mul_succ]
          omega
        rw [hall, Nat.mul_div_cancel_left _ hn, Nat.mul_mod_right]
        split_ifs <;> simp <;> omega
      · have hmod : (xs.length + 1) % n = xs.length % n + 1 := by
          rw [← Nat.mod_add_mod, Nat.mod_eq_of_lt (by omega)]
        have hsame : (xs.length + 1) / n = xs.length / n := by
          rw [Nat.succ_div_of_not_dvd]
          intro hdvd
          rw [Nat.dvd_iff_mod_eq_zero, hmod] at hdvd
          omega
        rw [hmod, hsame]
        split_ifs <;> simp <;> omega

/-- No hand is more than one ahead of another. -/
theorem length_share_le (hn : 0 < n) {i j : ℕ} (hi : i < n) (hj : j < n) (xs : List α) :
    (share n i xs).length ≤ (share n j xs).length + 1 := by
  rw [length_share hn hi, length_share hn hj]
  split_ifs <;> omega

end RoundRobin
