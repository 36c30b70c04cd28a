import Banana.Library.Monitor

/-!
# ConcurrentHashMap

The bucketed map of `multi-threading/ConcurrentHashMap.h`.  A method locks
one bucket and touches nothing else, so all buckets may stand under one
monitor whose condition variables are the bucket numbers.

`waitFind` of every key of a bucket sleeps on the one condition variable of
the bucket, and `insert` notifies one sleeper.  So a waiter for the inserted
key is released when it is the only sleeper of its bucket, and may be left
asleep otherwise: the map loses a wake-up when several threads wait in one
bucket, for equal keys or for different ones.
-/

namespace Banana.ConcurrentHashMap

open Monitor Threads

variable {K V τ : Type*} {HASHLOCKS : ℕ}

inductive Op (K V : Type*)
  | find (k : K)
  | waitFind (k : K)
  | insert (k : K) (v : V)
  | erase (k : K)

/-- What a call returns, and the value it assigns to its reference argument. -/
inductive Ret (V : Type*)
  | returnFalse
  | returnTrue
  | returnTrueFound (v : V)
  | voidFound (v : V)
  | void

abbrev Buckets (HASHLOCKS : ℕ) (K V : Type*) := Fin HASHLOCKS → K → Option V

abbrev Body (HASHLOCKS : ℕ) (K V : Type*) :=
  Buckets HASHLOCKS K V → Pass (Buckets HASHLOCKS K V) (Ret V) (Fin HASHLOCKS)

section Bodies

variable [NeZero HASHLOCKS] (hasher : K → ℕ)

def bucketIdx (HASHLOCKS : ℕ) [NeZero HASHLOCKS] (hasher : K → ℕ) (k : K) : Fin HASHLOCKS :=
  Fin.ofNat HASHLOCKS (hasher k)

def lookup (map : Buckets HASHLOCKS K V) (k : K) : Option V :=
  map (bucketIdx HASHLOCKS hasher k) k

def find (k : K) : Body HASHLOCKS K V := fun map =>
  match lookup hasher map k with
  | some v => .finish map (.returnTrueFound v) none
  | none => .finish map .returnFalse none

def waitFind (k : K) : Body HASHLOCKS K V := fun map =>
  match lookup hasher map k with
  | some v => .finish map (.voidFound v) none
  | none => .wait (bucketIdx HASHLOCKS hasher k)

variable [DecidableEq K]

def setEntry (map : Buckets HASHLOCKS K V) (k : K) (entry : Option V) : Buckets HASHLOCKS K V :=
  Function.update map (bucketIdx HASHLOCKS hasher k)
    (Function.update (map (bucketIdx HASHLOCKS hasher k)) k entry)

def insert (k : K) (v : V) : Body HASHLOCKS K V := fun map =>
  match lookup hasher map k with
  | some _ => .finish map .returnFalse none
  | none =>
      .finish (setEntry hasher map k (some v)) .returnTrue (some (bucketIdx HASHLOCKS hasher k))

def erase (k : K) : Body HASHLOCKS K V := fun map =>
  .finish (setEntry hasher map k none) .void none

def body : Op K V → Body HASHLOCKS K V
  | .find k => find hasher k
  | .waitFind k => waitFind hasher k
  | .insert k v => insert hasher k v
  | .erase k => erase hasher k

theorem lookup_setEntry_self (map : Buckets HASHLOCKS K V) (k : K) (entry : Option V) :
    lookup hasher (setEntry hasher map k entry) k = entry := by
  simp [lookup, setEntry]

theorem lookup_setEntry_of_ne (map : Buckets HASHLOCKS K V) {k k' : K} (hne : k' ≠ k)
    (entry : Option V) :
    lookup hasher (setEntry hasher map k entry) k' = lookup hasher map k' := by
  unfold lookup setEntry
  by_cases hidx : bucketIdx HASHLOCKS hasher k' = bucketIdx HASHLOCKS hasher k
  · rw [hidx, Function.update_self, Function.update_of_ne hne]
  · rw [Function.update_of_ne hidx]

inductive Finishes (map : Buckets HASHLOCKS K V) (op : Op K V) :
    Buckets HASHLOCKS K V → Option (Fin HASHLOCKS) → Prop
  | reads : Finishes map op map none
  | inserts (k : K) (v : V) (hop : op = .insert k v) (habsent : lookup hasher map k = none) :
      Finishes map op (setEntry hasher map k (some v)) (some (bucketIdx HASHLOCKS hasher k))
  | erases (k : K) : Finishes map op (setEntry hasher map k none) none

theorem finishes_of_body {map map' : Buckets HASHLOCKS K V} {op : Op K V} {r : Ret V}
    {n : Option (Fin HASHLOCKS)} (h : body hasher op map = .finish map' r n) :
    Finishes hasher map op map' n := by
  cases op with
  | find k =>
      cases hk : lookup hasher map k <;> simp only [body, find, hk, Pass.finish.injEq] at h <;>
        obtain ⟨rfl, -, rfl⟩ := h <;> exact .reads
  | waitFind k =>
      cases hk : lookup hasher map k with
      | none => simp [body, waitFind, hk] at h
      | some v =>
          simp only [body, waitFind, hk, Pass.finish.injEq] at h
          obtain ⟨rfl, -, rfl⟩ := h
          exact .reads
  | insert k v =>
      cases hk : lookup hasher map k with
      | none =>
          simp only [body, insert, hk, Pass.finish.injEq] at h
          obtain ⟨rfl, -, rfl⟩ := h
          exact .inserts k v rfl hk
      | some v' =>
          simp only [body, insert, hk, Pass.finish.injEq] at h
          obtain ⟨rfl, -, rfl⟩ := h
          exact .reads
  | erase k =>
      simp only [body, erase, Pass.finish.injEq] at h
      obtain ⟨rfl, -, rfl⟩ := h
      exact .erases k

theorem of_body_wait {map : Buckets HASHLOCKS K V} {op : Op K V} {c : Fin HASHLOCKS}
    (h : body hasher op map = .wait c) :
    ∃ k, op = .waitFind k ∧ c = bucketIdx HASHLOCKS hasher k ∧ lookup hasher map k = none := by
  cases op with
  | find k => cases hk : lookup hasher map k <;> simp [body, find, hk] at h
  | waitFind k =>
      cases hk : lookup hasher map k with
      | none =>
          have hc : bucketIdx HASHLOCKS hasher k = c := by simpa [body, waitFind, hk] using h
          exact ⟨k, rfl, hc.symm, hk⟩
      | some v => simp [body, waitFind, hk] at h
  | insert k v => cases hk : lookup hasher map k <;> simp [body, insert, hk] at h
  | erase k => simp [body, erase] at h

end Bodies

/-! ## Waiters -/

abbrev System (HASHLOCKS : ℕ) (K V τ : Type*) :=
  State (Buckets HASHLOCKS K V) (Op K V) (Ret V) (Fin HASHLOCKS) τ

def emptyMap : Buckets HASHLOCKS K V := fun _ _ => none

/-- `t` is asleep in `waitFind k` and nobody has notified it. -/
def WaitsFor (s : System HASHLOCKS K V τ) (t : τ) (k : K) : Prop :=
  ∃ c, s.status t = .asleep (.waitFind k) c

section Waiters

variable [NeZero HASHLOCKS] (hasher : K → ℕ)

/-- No thread is left asleep for a key that is in the map. -/
def NoLostWaiter (s : System HASHLOCKS K V τ) : Prop :=
  ∀ t k, WaitsFor s t k → lookup hasher s.shared k = none

def Released (s : System HASHLOCKS K V τ) (k : K) : Prop :=
  (∀ t, ¬ WaitsFor s t k) ∨
    ∃ v, ∀ t, sleepsOn (bucketIdx HASHLOCKS hasher k) (s.status t) = true → t = v

/-- The condition on a step: an `insert` that stores a new key releases its
waiters. -/
def InsertReleases (s : System HASHLOCKS K V τ) (a : Action (Op K V) τ) : Prop :=
  ∀ k v, runs s a = some (.insert k v) → lookup hasher s.shared k = none → Released hasher s k

def condvar : Op K V → Option (Fin HASHLOCKS)
  | .waitFind k => some (bucketIdx HASHLOCKS hasher k)
  | _ => none

theorem WaitsFor.sleepsOn {hasher : K → ℕ} {s : System HASHLOCKS K V τ} {t : τ} {k : K}
    (hw : Waiting (condvar hasher) s.status) (h : WaitsFor s t k) :
    sleepsOn (bucketIdx HASHLOCKS hasher k) (s.status t) = true := by
  obtain ⟨c, hc⟩ := h
  have hidx := hw t _ c (.inl hc)
  simpa [hc, condvar, eq_comm] using hidx

variable [Fintype τ]

theorem not_waitsFor_of_released {s : System HASHLOCKS K V τ} {k : K}
    (hw : Waiting (condvar hasher) s.status) (hrel : Released hasher s k) {wake : Option τ}
    (hwake : CanWake s.status (some (bucketIdx HASHLOCKS hasher k)) wake) (t : τ)
    (hnot : wake ≠ some t) : ¬ WaitsFor s t k := by
  intro hwaits
  have hsleeps := hwaits.sleepsOn hw
  rcases hrel with hnobody | ⟨v, honly⟩
  · exact hnobody t hwaits
  · cases wake with
    | none =>
        have hzero := count_eq_zero_iff.mp hwake t
        rw [hsleeps] at hzero
        exact Bool.noConfusion hzero
    | some w =>
        apply hnot
        rw [honly w hwake, honly t hsleeps]

variable [DecidableEq K]

theorem condvar_of_wait (op : Op K V) (map : Buckets HASHLOCKS K V) (c : Fin HASHLOCKS)
    (h : body hasher op map = .wait c) : condvar hasher op = some c := by
  obtain ⟨k, rfl, rfl, -⟩ := of_body_wait hasher h
  rfl

variable [DecidableEq τ]

variable {hasher}

theorem NoLostWaiter.step {s u : System HASHLOCKS K V τ} {a : Action (Op K V) τ}
    (hw : Waiting (condvar hasher) s.status) (hs : NoLostWaiter hasher s)
    (hrel : InsertReleases hasher s a) (h : step (body hasher) s a = some u) :
    NoLostWaiter hasher u := by
  intro t k hwaits
  cases moves_of_step h with
  | waits t' op c _ hbody =>
      obtain ⟨k', rfl, rfl, habsent⟩ := of_body_wait hasher hbody
      obtain ⟨c, hc⟩ := hwaits
      by_cases htt : t = t'
      · subst t'
        obtain ⟨rfl, -⟩ : k' = k ∧ bucketIdx HASHLOCKS hasher k' = c := by simpa using hc
        exact habsent
      · exact hs t k ⟨c, by simpa [htt] using hc⟩
  | finishes t' op map r n wake _ hruns hbody hwake =>
      obtain ⟨c, hc⟩ := hwaits
      obtain ⟨hasleep, hnot⟩ := asleep_after_finish hc
      have hold := hs t k ⟨c, hasleep⟩
      cases finishes_of_body hasher hbody with
      | reads => exact hold
      | inserts k' v hop habsent =>
          -- The waiters of the new key are gone, the others do not see it.
          have hne : k ≠ k' := by
            rintro rfl
            apply not_waitsFor_of_released hasher hw _ hwake t hnot ⟨c, hasleep⟩
            exact hrel k v (hop ▸ hruns) habsent
          rw [lookup_setEntry_of_ne hasher _ hne]
          exact hold
      | erases k' =>
          by_cases hk : k = k'
          · subst k'
            exact lookup_setEntry_self hasher _ _ _
          · rw [lookup_setEntry_of_ne hasher _ hk]
            exact hold
  | spurious t' op c hsleep =>
      obtain ⟨d, hd⟩ := hwaits
      by_cases htt : t = t'
      · subst t'
        simp at hd
      · exact hs t k ⟨d, by simpa [htt] using hd⟩

/-- Where the condition fails, `notify_one` may pick a sleeper that leaves a
waiter for the new key behind. -/
theorem exists_lost_waiter {s : System HASHLOCKS K V τ} {t : τ} {k : K} (v : V)
    (hidle : s.status t = .idle) (habsent : lookup hasher s.shared k = none)
    (hnot : ¬ Released hasher s k) :
    ∃ wake u, step (body hasher) s (.call t (.insert k v) wake) = some u ∧
      ¬ NoLostWaiter hasher u := by
  obtain ⟨hsome, hother⟩ := not_or.mp hnot
  obtain ⟨t₁, ht₁⟩ := not_forall_not.mp hsome
  obtain ⟨t₂, hsleeps, hne⟩ : ∃ t₂,
      sleepsOn (bucketIdx HASHLOCKS hasher k) (s.status t₂) = true ∧ t₂ ≠ t₁ := by
    by_contra hall
    apply hother
    refine ⟨t₁, fun t ht => ?_⟩
    by_contra hne
    exact hall ⟨t, ht, hne⟩
  have hcan : CanWake s.status (some (bucketIdx HASHLOCKS hasher k)) (some t₂) := hsleeps
  have hstep : step (body hasher) s (.call t (.insert k v) (some t₂)) = some
      ⟨setEntry hasher s.shared k (some v),
        Function.update (wakeUp s.status (some t₂)) t .idle,
        s.log ++ [(.insert k v, .returnTrue)]⟩ := by
    simp [step, hidle, Monitor.pass, body, insert, habsent, hcan]
  refine ⟨some t₂, _, hstep, ?_⟩
  · intro hgood
    obtain ⟨c, hc⟩ := ht₁
    have htt : t₁ ≠ t := by
      rintro rfl
      simp [hidle] at hc
    have hkept : Function.update (wakeUp s.status (some t₂)) t .idle t₁ =
        .asleep (.waitFind k) c := by
      rw [Function.update_of_ne htt, wakeUp_eq_asleep_iff]
      exact ⟨hc, by simpa using hne⟩
    have hnone := hgood t₁ k ⟨c, hkept⟩
    change lookup hasher (setEntry hasher s.shared k (some v)) k = none at hnone
    simp [lookup_setEntry_self] at hnone

/-- In a run whose inserts all release the waiters of their key no thread is
ever left asleep for a key that is in the map; and an insert keeps this,
whichever sleeper it picks, exactly when it meets the condition. -/
theorem no_lost_waiter_of_inserts_release
    {as : List (Action (Op K V) τ)} {s : System HASHLOCKS K V τ}
    (hrun : Transition.run (step (body hasher)) (start emptyMap) as = some s) :
    (Transition.Along (InsertReleases hasher) (step (body hasher))
        (start emptyMap : System HASHLOCKS K V τ) as → NoLostWaiter hasher s) ∧
      ∀ t k v, s.status t = .idle → lookup hasher s.shared k = none → NoLostWaiter hasher s →
        (Released hasher s k ↔ ∀ wake u,
          step (body hasher) s (.call t (.insert k v) wake) = some u →
            NoLostWaiter hasher u) := by
  have hkeeps : ∀ (v : System HASHLOCKS K V τ) a w,
      Waiting (condvar hasher) v.status → step (body hasher) v a = some w →
      Waiting (condvar hasher) w.status := fun v a w hv h =>
    (moves_of_step h).waiting (condvar_of_wait hasher) hv
  have hstart : Waiting (condvar hasher) (start emptyMap : System HASHLOCKS K V τ).status :=
    waiting_start (condvar hasher) emptyMap
  have hw := Transition.run_invariant hkeeps hstart hrun
  constructor
  · intro hal
    refine (Transition.run_invariant_along
      (I := fun v => Waiting (condvar hasher) v.status ∧ NoLostWaiter hasher v)
      ?_ ⟨hstart, ?_⟩ hal hrun).2
    · rintro v a w ⟨hv, hgood⟩ hrel h
      exact ⟨hkeeps v a w hv h, hgood.step hv hrel h⟩
    · rintro t k ⟨c, hc⟩
      simp [start] at hc
  · intro t k v hidle habsent hgood
    constructor
    · intro hrel wake u h
      apply hgood.step hw _ h
      intro k' v' hruns _
      obtain ⟨rfl, rfl⟩ : k = k' ∧ v = v' := by simpa [runs] using hruns
      exact hrel
    · intro hall
      by_contra hnot
      obtain ⟨wake, u, h, hbad⟩ := exists_lost_waiter v hidle habsent hnot
      exact hbad (hall wake u h)

end Waiters

/-- Two threads wait for one key; a third inserts it and wakes one of them. -/
def twoWaiters : List (Action (Op ℕ ℕ) (Fin 3)) :=
  [.call 0 (.waitFind 5) none, .call 1 (.waitFind 5) none, .call 2 (.insert 5 7) (some 0),
    .resume 0 none]

def oneWaiter : List (Action (Op ℕ ℕ) (Fin 3)) :=
  [.call 0 (.waitFind 5) none, .call 2 (.insert 5 7) (some 0), .resume 0 none]

theorem no_lost_waiter_of_inserts_release_oneWaiter :
    ∃ s : System 499 ℕ ℕ (Fin 3),
      Transition.run (step (body id)) (start emptyMap) oneWaiter = some s ∧
      lookup id s.shared 5 = some 7 ∧ NoLostWaiter id s := by
  refine ⟨_, rfl, rfl, ?_⟩
  apply (@no_lost_waiter_of_inserts_release ℕ ℕ (Fin 3) 499 _ id _ _ _ oneWaiter _ rfl).1
  refine (Transition.along_cons rfl).mpr ⟨by simp [InsertReleases, runs], ?_⟩
  refine (Transition.along_cons rfl).mpr ⟨?_, ?_⟩
  · rintro k v hruns -
    obtain ⟨rfl, rfl⟩ : 5 = k ∧ 7 = v := by simpa [runs] using hruns
    exact .inr ⟨0, by decide⟩
  · refine (Transition.along_cons rfl).mpr ⟨?_, Transition.along_nil _⟩
    intro k v hruns
    exact absurd hruns (by simp [runs, wakeUp, Status.notify, Function.update])

theorem lost_waiter_twoWaiters :
    ∃ s : System 499 ℕ ℕ (Fin 3),
      Transition.run (step (body id)) (start emptyMap) twoWaiters = some s ∧
      ¬ NoLostWaiter id s := by
  refine ⟨_, rfl, ?_⟩
  intro hgood
  have hnone := hgood 1 5 ⟨_, rfl⟩
  exact absurd hnone (by decide)

end Banana.ConcurrentHashMap
