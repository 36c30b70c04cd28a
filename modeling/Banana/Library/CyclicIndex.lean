import Mathlib.Data.List.Basic
import Mathlib.Data.Nat.ModEq
import Mathlib.Logic.Function.Basic
import Mathlib.Tactic.Common
import Mathlib.Tactic.SplitIfs

/-!
# Indices that run around a ring

A ring of `n` slots is addressed by indices below `n`, or by unbounded
positions taken modulo `n`.  `distance n t h` counts the steps from `t` to
`h`; it never reaches `n`, so one slot is given up to tell a full ring from
an empty one.  `window n f t k` lists the `k` slots from `t` on.
-/

namespace CyclicIndex

variable {α : Type*} {n t h : ℕ}

def next (n i : ℕ) : ℕ := (i + 1) % n

/-- The number of steps from `t` to `h`. -/
def distance (n t h : ℕ) : ℕ := (h + n - t) % n

theorem next_lt (hn : 0 < n) (i : ℕ) : next n i < n := Nat.mod_lt _ hn

theorem next_eq {i : ℕ} (hi : i < n) : next n i = if i + 1 = n then 0 else i + 1 := by
  unfold next
  split_ifs with hin
  · rw [hin, Nat.mod_self]
  · exact Nat.mod_eq_of_lt (by omega)

theorem distance_eq (ht : t < n) (hh : h < n) :
    distance n t h = if t ≤ h then h - t else h + n - t := by
  unfold distance
  split_ifs with hth
  · rw [show h + n - t = h - t + n by omega, Nat.add_mod_right]
    exact Nat.mod_eq_of_lt (by omega)
  · exact Nat.mod_eq_of_lt (by omega)

theorem distance_lt (hn : 0 < n) (t h : ℕ) : distance n t h < n := Nat.mod_lt _ hn

@[simp] theorem distance_self (ht : t < n) : distance n t t = 0 := by
  simp [distance_eq ht ht]

theorem distance_eq_zero_iff (ht : t < n) (hh : h < n) : distance n t h = 0 ↔ t = h := by
  rw [distance_eq ht hh]
  split_ifs <;> omega

/-- The ring is full, one slot kept free, when the next head is the tail. -/
theorem next_eq_iff_distance (ht : t < n) (hh : h < n) :
    next n h = t ↔ distance n t h + 1 = n := by
  rw [next_eq hh, distance_eq ht hh]
  split_ifs <;> omega

theorem distance_next_head (ht : t < n) (hh : h < n) (hfree : next n h ≠ t) :
    distance n t (next n h) = distance n t h + 1 := by
  have hlt : next n h < n := next_lt (by omega) h
  rw [distance_eq ht hlt, distance_eq ht hh]
  rw [next_eq hh] at hfree ⊢
  split_ifs at hfree ⊢ <;> omega

theorem distance_next_tail (ht : t < n) (hh : h < n) (hne : t ≠ h) :
    distance n (next n t) h + 1 = distance n t h := by
  have hlt : next n t < n := next_lt (by omega) t
  rw [distance_eq hlt hh, distance_eq ht hh, next_eq ht]
  split_ifs <;> omega

theorem add_distance_mod (ht : t < n) (hh : h < n) : (t + distance n t h) % n = h := by
  rw [distance_eq ht hh]
  split_ifs with hth
  · rw [Nat.add_sub_cancel' hth, Nat.mod_eq_of_lt hh]
  · rw [show t + (h + n - t) = h + n by omega, Nat.add_mod_right, Nat.mod_eq_of_lt hh]

theorem distance_add_mod {k : ℕ} (hk : k < n) (t : ℕ) : distance n (t % n) ((t + k) % n) = k := by
  have ht : t % n < n := Nat.mod_lt t (by omega)
  rw [distance_eq ht (Nat.mod_lt _ (by omega)), Nat.add_mod, Nat.mod_eq_of_lt hk]
  generalize t % n = r at ht ⊢
  rcases Nat.lt_or_ge (r + k) n with hin | hout
  · rw [Nat.mod_eq_of_lt hin, if_pos (by omega)]
    omega
  · rw [Nat.mod_eq_sub_mod hout, Nat.mod_eq_of_lt (by omega), if_neg (by omega)]
    omega

theorem mod_ne_mod {i j : ℕ} (hij : i < j) (hlt : j < i + n) : i % n ≠ j % n := by
  intro hmod
  have hdvd : n ∣ j - i := (Nat.modEq_iff_dvd' hij.le).mp hmod
  have hle := Nat.le_of_dvd (by omega) hdvd
  omega

/-! ## The slots of the positions up to an index -/

def trail (n k : ℕ) : List ℕ := (List.range (k + 1)).map (· % n)

theorem trail_succ (n k : ℕ) : trail n (k + 1) = trail n k ++ [(k + 1) % n] := by
  rw [trail, List.range_succ, List.map_append]
  rfl

theorem getLast?_trail (n k : ℕ) : (trail n k).getLast? = some (k % n) := by
  simp [trail, List.range_succ]

theorem getElem?_trail {n k i x : ℕ} (h : (trail n k)[i]? = some x) : i ≤ k ∧ x = i % n := by
  obtain ⟨hlt, hx⟩ := List.getElem?_eq_some_iff.mp h
  have hle : i < k + 1 := by simpa [trail] using hlt
  exact ⟨Nat.le_of_lt_succ hle, by simpa [trail] using hx.symm⟩

/-! ## The slots from an index on -/

def window (n : ℕ) (f : ℕ → α) (t k : ℕ) : List α :=
  (List.range k).map fun i => f ((t + i) % n)

@[simp] theorem length_window (f : ℕ → α) (t k : ℕ) : (window n f t k).length = k := by
  simp [window]

@[simp] theorem window_zero (f : ℕ → α) (t : ℕ) : window n f t 0 = [] := rfl

theorem window_succ_back (f : ℕ → α) (t k : ℕ) :
    window n f t (k + 1) = window n f t k ++ [f ((t + k) % n)] := by
  simp [window, List.range_succ]

theorem window_succ_front (f : ℕ → α) (t k : ℕ) :
    window n f t (k + 1) = f (t % n) :: window n f (next n t) k := by
  rw [window, List.range_succ_eq_map, List.map_cons, List.map_map]
  refine congrArg _ (List.map_congr_left fun i _ => ?_)
  simp only [Function.comp_apply, next, Nat.mod_add_mod, Nat.succ_eq_add_one]
  rw [Nat.add_right_comm, Nat.add_assoc]

/-- Writing the slot behind a window of fewer than `n` slots leaves it alone. -/
theorem window_update (f : ℕ → α) (t : ℕ) {k : ℕ} (hk : k < n) (v : α) :
    window n (Function.update f ((t + k) % n) v) t k = window n f t k := by
  refine List.map_congr_left fun i hi => ?_
  have hik : i < k := List.mem_range.mp hi
  have hne : (t + i) % n ≠ (t + k) % n := mod_ne_mod (by omega) (by omega)
  exact Function.update_of_ne hne v f

end CyclicIndex
