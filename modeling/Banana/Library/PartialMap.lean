import Mathlib.Data.List.Basic
import Mathlib.Logic.Function.Basic
import Mathlib.Tactic.Common

/-!
# Histories of a partial map

A partial map with an insertion that never replaces a value.  `Step` says what
each operation does and answers, `Legal` that a history is one of the map, and
`Owns` reads from a history which value a key has: that of an insertion which
succeeded and after which the key was not erased.
-/

namespace PartialMap

open Function

variable {K V : Type*}

/-- An operation with its answer. -/
inductive Event (K V : Type*)
  | insert (k : K) (v : V) (inserted : Bool)
  | erase (k : K)
  | find (k : K) (found : Option V)

section Specification

variable [DecidableEq K]

inductive Step (m : K → Option V) : Event K V → (K → Option V) → Prop
  | inserts (k : K) (v : V) (habsent : m k = none) :
      Step m (.insert k v true) (update m k (some v))
  | rejects (k : K) (v v' : V) (hpresent : m k = some v') : Step m (.insert k v false) m
  | erases (k : K) : Step m (.erase k) (update m k none)
  | finds (k : K) : Step m (.find k (m k)) m

theorem Step.absent {m m' : K → Option V} {k : K} {v : V}
    (hstep : Step m (.insert k v true) m') : m k = none := by
  cases hstep with
  | inserts _ _ habsent => exact habsent

theorem Step.present {m m' : K → Option V} {k : K} {v : V}
    (hstep : Step m (.insert k v false) m') : ∃ v', m k = some v' := by
  cases hstep with
  | rejects _ _ v' hpresent => exact ⟨v', hpresent⟩

inductive Legal : List (Event K V) → (K → Option V) → Prop
  | nil : Legal [] fun _ => none
  | snoc (h : List (Event K V)) (m m' : K → Option V) (e : Event K V) (hlegal : Legal h m)
      (hstep : Step m e m') : Legal (h ++ [e]) m'

end Specification

/-- The key has the value of an insertion that succeeded, and has not been erased
since. -/
def Owns (h : List (Event K V)) (k : K) (v : V) : Prop :=
  ∃ before after, h = before ++ .insert k v true :: after ∧ .erase k ∉ after

theorem not_owns_nil (k : K) (v : V) : ¬ Owns [] k v := by
  rintro ⟨before, after, hsplit, -⟩
  simp at hsplit

theorem owns_snoc_insert (h : List (Event K V)) (k : K) (v : V) :
    Owns (h ++ [.insert k v true]) k v := ⟨h, [], rfl, by simp⟩

/-- What an event at the end adds to the ownership of a key. -/
theorem owns_snoc_iff {h : List (Event K V)} {e : Event K V} {k : K} {v : V} :
    Owns (h ++ [e]) k v ↔ e = .insert k v true ∨ Owns h k v ∧ e ≠ .erase k := by
  constructor
  · rintro ⟨before, after, hsplit, hafter⟩
    rcases List.eq_nil_or_concat after with rfl | ⟨after', e', rfl⟩
    · obtain ⟨-, he⟩ := List.append_inj' hsplit rfl
      exact .inl (List.singleton_inj.mp he)
    · rw [List.concat_eq_append, ← List.cons_append, ← List.append_assoc] at hsplit
      obtain ⟨rfl, he⟩ := List.append_inj' hsplit rfl
      obtain rfl := List.singleton_inj.mp he
      rw [List.concat_eq_append, List.mem_append, not_or, List.mem_singleton] at hafter
      exact .inr ⟨⟨before, after', rfl, hafter.1⟩, fun herase => hafter.2 herase.symm⟩
  · rintro (rfl | ⟨⟨before, after, rfl, hafter⟩, hne⟩)
    · exact owns_snoc_insert h k v
    · refine ⟨before, after ++ [e], by simp, ?_⟩
      rw [List.mem_append, not_or, List.mem_singleton]
      exact ⟨hafter, hne.symm⟩

variable [DecidableEq K]

/-- The map of a legal history holds exactly what the history says. -/
theorem Legal.eq_some_iff {h : List (Event K V)} {m : K → Option V} (hlegal : Legal h m) (k : K)
    (v : V) : m k = some v ↔ Owns h k v := by
  induction hlegal generalizing k v with
  | nil => simp [not_owns_nil]
  | snoc h m m' e _ hstep ih =>
      rw [owns_snoc_iff]
      cases hstep with
      | inserts k' v' habsent =>
          by_cases hk : k = k'
          · subst k'
            have hnone : ¬ Owns h k v := by
              rw [← ih, habsent]
              simp
            simp [hnone, eq_comm]
          · have hk' : k' ≠ k := fun heq => hk heq.symm
            rw [update_of_ne hk, ih]
            simp [hk']
      | rejects k' v' v'' _ => simp [ih]
      | erases k' =>
          by_cases hk : k = k'
          · subst k'
            simp
          · have hk' : k' ≠ k := fun heq => hk heq.symm
            rw [update_of_ne hk, ih]
            simp [hk']
      | finds k' => simp [ih]

theorem Legal.eq_none_iff {h : List (Event K V)} {m : K → Option V} (hlegal : Legal h m) (k : K) :
    m k = none ↔ ∀ v, ¬ Owns h k v := by
  simp only [← hlegal.eq_some_iff, Option.eq_none_iff_forall_ne_some, ne_eq]

theorem Legal.owner_unique {h : List (Event K V)} {m : K → Option V} (hlegal : Legal h m) {k : K}
    {v v' : V} (hv : Owns h k v) (hv' : Owns h k v') : v = v' := by
  rw [← hlegal.eq_some_iff] at hv hv'
  rw [hv] at hv'
  exact Option.some.inj hv'

/-- A legal history is legal up to any point, and what happens there is a step. -/
theorem Legal.split {h before after : List (Event K V)} {e : Event K V} {m : K → Option V}
    (hlegal : Legal h m) (hsplit : h = before ++ e :: after) :
    ∃ m₁ m₂, Legal before m₁ ∧ Step m₁ e m₂ := by
  induction hlegal generalizing after with
  | nil => simp at hsplit
  | snoc h m m' e' hlegal hstep ih =>
      rcases List.eq_nil_or_concat after with rfl | ⟨after', e'', rfl⟩
      · obtain ⟨rfl, he⟩ := List.append_inj' hsplit rfl
        obtain rfl := List.singleton_inj.mp he
        exact ⟨m, m', hlegal, hstep⟩
      · rw [List.concat_eq_append, ← List.cons_append, ← List.append_assoc] at hsplit
        exact ih (List.append_inj' hsplit rfl).1

end PartialMap
