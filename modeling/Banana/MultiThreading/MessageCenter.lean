import Banana.Library.PartialMap
import Banana.MultiThreading.ConcurrentHashMap

/-!
# MessageCenter

The registry of `multi-threading/MessageCenter.cpp` is a `ConcurrentHashMap`
from task names to references: `registerTask` inserts, `unregisterTask` erases,
and tasks are looked up with `find` and `waitFind`.  Every pass of a method
under its lock is a step of one partial map, whatever the buckets are, so the
order in which the locks were held is a history of that map.
-/

namespace Banana.MessageCenter

open ConcurrentHashMap Monitor PartialMap

variable {K V τ : Type*} {HASHLOCKS : ℕ}

def registerTask (taskName : K) (wpTask : V) : Op K V := .insert taskName wpTask

def unregisterTask (taskName : K) : Op K V := .erase taskName

def waitGetTaskRef (receTask : K) : Op K V := .waitFind receTask

/-- A completed call as an operation on one map. -/
def event : Op K V × Ret V → Event K V
  | (.find k, .returnTrueFound v) => .find k (some v)
  | (.find k, _) => .find k none
  | (.waitFind k, .voidFound v) => .find k (some v)
  | (.waitFind k, _) => .find k none
  | (.insert k v, .returnTrue) => .insert k v true
  | (.insert k v, _) => .insert k v false
  | (.erase k, _) => .erase k

/-- What a call has to return when the calls before it are `h`. -/
def Answered (h : List (Event K V)) : Op K V × Ret V → Prop
  | (.find k, r) =>
      (∃ v, r = .returnTrueFound v ∧ Owns h k v) ∨ (r = .returnFalse ∧ ∀ v, ¬ Owns h k v)
  | (.waitFind k, r) => ∃ v, r = .voidFound v ∧ Owns h k v
  | (.insert k v, r) =>
      (r = .returnTrue ∧ ∀ v', ¬ Owns h k v') ∨
        (r = .returnFalse ∧ (∃ v', Owns h k v') ∧
          ∀ k' w, Owns (h ++ [.insert k v false]) k' w ↔ Owns h k' w)
  | (.erase k, r) =>
      r = .void ∧ (∀ v, ¬ Owns (h ++ [.erase k]) k v) ∧
        ∀ k' w, k' ≠ k → (Owns (h ++ [.erase k]) k' w ↔ Owns h k' w)

/-- What a call of `op` may return at all. -/
def Returns : Op K V × Ret V → Prop
  | (.find _, r) => (∃ v, r = .returnTrueFound v) ∨ r = .returnFalse
  | (.waitFind _, r) => ∃ v, r = .voidFound v
  | (.insert _ _, r) => r = .returnTrue ∨ r = .returnFalse
  | (.erase _, r) => r = .void

section Passes

variable [NeZero HASHLOCKS] (hasher : K → ℕ)

/-- Keys are stored in their own bucket only. -/
def Placed (map : Buckets HASHLOCKS K V) : Prop :=
  ∀ b k, map b k ≠ none → b = bucketIdx HASHLOCKS hasher k

variable [DecidableEq K]

theorem Placed.setEntry {map : Buckets HASHLOCKS K V} (hmap : Placed hasher map) (k : K)
    (entry : Option V) : Placed hasher (ConcurrentHashMap.setEntry hasher map k entry) := by
  intro b k' hstored
  by_cases hb : b = bucketIdx HASHLOCKS hasher k
  · by_cases hk : k' = k
    · rw [hk, hb]
    · apply hmap
      subst b
      simpa [ConcurrentHashMap.setEntry, hk] using hstored
  · apply hmap
    simpa [ConcurrentHashMap.setEntry, hb] using hstored

theorem lookup_setEntry (map : Buckets HASHLOCKS K V) (k : K) (entry : Option V) :
    lookup hasher (setEntry hasher map k entry) =
      Function.update (lookup hasher map) k entry := by
  funext k'
  by_cases hk : k' = k
  · subst k'
    rw [lookup_setEntry_self, Function.update_self]
  · rw [lookup_setEntry_of_ne hasher map hk, Function.update_of_ne hk]

/-- One pass under the lock is one step of the map that the buckets stand for. -/
theorem step_of_body {map map' : Buckets HASHLOCKS K V} {op : Op K V} {r : Ret V}
    {n : Option (Fin HASHLOCKS)} (h : body hasher op map = .finish map' r n)
    (hmap : Placed hasher map) :
    Returns (op, r) ∧ Step (lookup hasher map) (event (op, r)) (lookup hasher map') ∧
      Placed hasher map' := by
  cases op with
  | find k =>
      cases hk : lookup hasher map k with
      | none =>
          simp only [body, ConcurrentHashMap.find, hk, Pass.finish.injEq] at h
          obtain ⟨rfl, rfl, -⟩ := h
          have hevent : event (.find k, .returnFalse) = .find k (lookup hasher map k) := by
            rw [hk]
            rfl
          rw [hevent]
          exact ⟨.inr rfl, .finds k, hmap⟩
      | some v =>
          simp only [body, ConcurrentHashMap.find, hk, Pass.finish.injEq] at h
          obtain ⟨rfl, rfl, -⟩ := h
          rw [event, ← hk]
          exact ⟨.inl ⟨v, rfl⟩, .finds k, hmap⟩
  | waitFind k =>
      cases hk : lookup hasher map k with
      | none => simp [body, ConcurrentHashMap.waitFind, hk] at h
      | some v =>
          simp only [body, ConcurrentHashMap.waitFind, hk, Pass.finish.injEq] at h
          obtain ⟨rfl, rfl, -⟩ := h
          rw [event, ← hk]
          exact ⟨⟨v, rfl⟩, .finds k, hmap⟩
  | insert k v =>
      cases hk : lookup hasher map k with
      | none =>
          simp only [body, ConcurrentHashMap.insert, hk, Pass.finish.injEq] at h
          obtain ⟨rfl, rfl, -⟩ := h
          rw [lookup_setEntry]
          exact ⟨.inl rfl, .inserts k v hk, hmap.setEntry hasher k (some v)⟩
      | some v' =>
          simp only [body, ConcurrentHashMap.insert, hk, Pass.finish.injEq] at h
          obtain ⟨rfl, rfl, -⟩ := h
          exact ⟨.inr rfl, .rejects k v v' hk, hmap⟩
  | erase k =>
      simp only [body, ConcurrentHashMap.erase, Pass.finish.injEq] at h
      obtain ⟨rfl, rfl, -⟩ := h
      rw [lookup_setEntry]
      exact ⟨rfl, .erases k, hmap.setEntry hasher k none⟩

omit [DecidableEq K] in
theorem placed_emptyMap : Placed hasher (emptyMap : Buckets HASHLOCKS K V) :=
  fun _ _ hstored => absurd rfl hstored

/-- The completed calls, in the order of the locks, are a history of one map. -/
theorem legal_of_run [Fintype τ] [DecidableEq τ] {as : List (Action (Op K V) τ)}
    {s : System HASHLOCKS K V τ}
    (hrun : Transition.run (step (body hasher)) (start emptyMap) as = some s) :
    (∀ p ∈ s.log, Returns p) ∧ Legal (s.log.map event) (lookup hasher s.shared) ∧
      Placed hasher s.shared := by
  refine run_log_invariant (I := fun log shared => (∀ p ∈ log, Returns p) ∧
    Legal (log.map event) (lookup hasher shared) ∧ Placed hasher shared) ?_ ?_ hrun
  · rintro log shared op shared' result notified ⟨hreturns, hlegal, hplaced⟩ hbody
    obtain ⟨hreturn, hstep, hplaced'⟩ := step_of_body hasher hbody hplaced
    refine ⟨fun p hp => ?_, ?_, hplaced'⟩
    · rcases List.mem_append.mp hp with hp | hp
      · exact hreturns p hp
      · rw [List.mem_singleton.mp hp]
        exact hreturn
    · rw [List.map_append]
      exact .snoc _ _ _ _ hlegal hstep
  · exact ⟨by simp [start], .nil, placed_emptyMap hasher⟩

end Passes

variable [DecidableEq K]

end Banana.MessageCenter
