import Banana.MultiThreading.MessageCenter

/-!
# getTaskRef

`getTaskRef` makes one `find` and hands its reference argument through.  When
the name is not registered it returns `RECEIVER_NOT_EXIST`, a code of the
convention in which 0 is success, from a function that returns `bool`.
-/

namespace Banana.MessageCenter

open ConcurrentHashMap Monitor PartialMap

variable {K V τ : Type*} {HASHLOCKS : ℕ}

inductive ErrorType
  | receiverRecvOk
  | receiverNotExist
  | receiverBusy
  | unknownErr

/-- An enumerator is converted to `bool` through its value. -/
def ErrorType.toBool : ErrorType → Bool
  | receiverRecvOk => false
  | receiverNotExist => true
  | receiverBusy => true
  | unknownErr => true

def getTaskRef (receTask : K) : Op K V := .find receTask

/-- What `getTaskRef` returns and what it leaves in `wpTask` when `find` ends
with `r`. -/
def getTaskRefReturns (wpTask : V) : Ret V → Bool × V
  | .returnTrueFound v => (true, v)
  | _ => (ErrorType.receiverNotExist.toBool, wpTask)

/-- The name is registered after the calls of `h`. -/
def Registered (h : List (Event K V)) (taskName : K) : Prop := ∃ v, Owns h taskName v

/-- The answer `out` of a call with the argument `wpTask` is what the registry says. -/
structure AgreesWithRegistry (h : List (Event K V)) (receTask : K) (wpTask : V)
    (out : Bool × V) : Prop where
  returns : out.1 = true ↔ Registered h receTask
  found : ∀ v, Owns h receTask v → out.2 = v
  missed : ¬ Registered h receTask → out.1 = false ∧ out.2 = wpTask

theorem agreesWithRegistry_of_found {h : List (Event K V)} {m : K → Option V} [DecidableEq K]
    (hlegal : Legal h m) {receTask : K} {v : V} (hfound : Owns h receTask v) (wpTask : V) :
    AgreesWithRegistry h receTask wpTask (getTaskRefReturns wpTask (.returnTrueFound v)) where
  returns := ⟨fun _ => ⟨v, hfound⟩, fun _ => rfl⟩
  found _ hother := hlegal.owner_unique hfound hother
  missed hnot := absurd ⟨v, hfound⟩ hnot

/-- The error code is true. -/
theorem not_agreesWithRegistry_of_missed {h : List (Event K V)} {receTask : K}
    (hnot : ¬ Registered h receTask) (wpTask : V) :
    ¬ AgreesWithRegistry h receTask wpTask (getTaskRefReturns wpTask .returnFalse) := by
  intro hagrees
  obtain ⟨hfalse, -⟩ := hagrees.missed hnot
  exact Bool.noConfusion hfalse

section Calls

variable [DecidableEq K] [Fintype τ] [DecidableEq τ] [NeZero HASHLOCKS] {hasher : K → ℕ}

/-- A call appends what `find` finds to the log. -/
theorem log_of_getTaskRef {s u : System HASHLOCKS K V τ} {t : τ} {receTask : K}
    {wake : Option τ} (h : step (body hasher) s (.call t (getTaskRef receTask) wake) = some u) :
    u.log = s.log ++ [(getTaskRef receTask, (lookup hasher s.shared receTask).elim .returnFalse
      .returnTrueFound)] := by
  cases hst : s.status t with
  | idle =>
      cases hfind : lookup hasher s.shared receTask with
      | none =>
          simp only [step, hst, Monitor.pass, getTaskRef, body, find, hfind,
            Option.ite_none_right_eq_some, Option.some.injEq] at h
          obtain ⟨-, rfl⟩ := h
          rfl
      | some v =>
          simp only [step, hst, Monitor.pass, getTaskRef, body, find, hfind,
            Option.ite_none_right_eq_some, Option.some.injEq] at h
          obtain ⟨-, rfl⟩ := h
          rfl
  | asleep op c => simp [step, hst] at h
  | woken op c => simp [step, hst] at h

/-- A call for a registered name does not wait and returns its reference. -/
theorem log_of_waitGetTaskRef {s u : System HASHLOCKS K V τ} {t : τ} {receTask : K} {v : V}
    {wake : Option τ} (hfind : lookup hasher s.shared receTask = some v)
    (h : step (body hasher) s (.call t (waitGetTaskRef receTask) wake) = some u) :
    u.log = s.log ++ [(waitGetTaskRef receTask, .voidFound v)] := by
  cases hst : s.status t with
  | idle =>
      simp only [step, hst, Monitor.pass, waitGetTaskRef, body, waitFind, hfind,
        Option.ite_none_right_eq_some, Option.some.injEq] at h
      obtain ⟨-, rfl⟩ := h
      rfl
  | asleep op c => simp [step, hst] at h
  | woken op c => simp [step, hst] at h

/-- After any calls of any threads, `getTaskRef` says what the registry says
exactly when the name is registered.  Then it returns the reference that
`waitGetTaskRef` returns. -/
theorem getTaskRef_agrees_iff {as : List (Action (Op K V) τ)} {s : System HASHLOCKS K V τ}
    (hrun : Transition.run (step (body hasher)) (start emptyMap) as = some s) {t : τ}
    {receTask : K} {u : System HASHLOCKS K V τ}
    (hcall : step (body hasher) s (.call t (getTaskRef receTask) none) = some u) (wpTask : V) :
    ∃ r, u.log = s.log ++ [(getTaskRef receTask, r)] ∧
      (AgreesWithRegistry (s.log.map event) receTask wpTask (getTaskRefReturns wpTask r) ↔
        Registered (s.log.map event) receTask) ∧
      (Registered (s.log.map event) receTask → ∀ t' w,
        step (body hasher) s (.call t' (waitGetTaskRef receTask) none) = some w →
          w.log = s.log ++ [(waitGetTaskRef receTask,
            .voidFound (getTaskRefReturns wpTask r).2)]) := by
  obtain ⟨-, hlegal, -⟩ := legal_of_run hasher hrun
  refine ⟨_, log_of_getTaskRef hcall, ?_, ?_⟩
  · cases hfind : lookup hasher s.shared receTask with
    | none =>
        have hnot : ¬ Registered (s.log.map event) receTask := by
          rintro ⟨v, howns⟩
          exact (hlegal.eq_none_iff receTask).mp hfind v howns
        exact iff_of_false (not_agreesWithRegistry_of_missed hnot wpTask) hnot
    | some v =>
        have howns := (hlegal.eq_some_iff receTask v).mp hfind
        exact iff_of_true (agreesWithRegistry_of_found hlegal howns wpTask) ⟨v, howns⟩
  · rintro ⟨v, howns⟩ t' w hwait
    have hfind := (hlegal.eq_some_iff receTask v).mpr howns
    rw [log_of_waitGetTaskRef hfind hwait, hfind]
    rfl

end Calls

/-- One task has registered. -/
def registeredOnce : List (Action (Op ℕ ℕ) (Fin 1)) :=
  [.call 0 (registerTask 5 7) none]

theorem getTaskRef_agrees_iff_registeredOnce :
    ∃ s : System 499 ℕ ℕ (Fin 1),
      Transition.run (step (body id)) (start emptyMap) registeredOnce = some s ∧
      AgreesWithRegistry (s.log.map event) 5 0 (true, 7) := by
  obtain ⟨s, hrun⟩ : ∃ s : System 499 ℕ ℕ (Fin 1),
      Transition.run (step (body id)) (start emptyMap) registeredOnce = some s := ⟨_, rfl⟩
  obtain rfl := Option.some.inj hrun
  have hregistered : Registered [.insert 5 7 true] 5 := ⟨7, [], [], rfl, by simp⟩
  obtain ⟨r, hlog, hagrees, -⟩ := @getTaskRef_agrees_iff ℕ ℕ (Fin 1) 499 _ _ _ _ id
    registeredOnce _ rfl 0 5 _ rfl 0
  obtain rfl : (.returnTrueFound 7) = r := by simpa using hlog
  exact ⟨_, rfl, hagrees.mpr hregistered⟩

/-- Nobody has registered. -/
theorem not_agreesWithRegistry_nobody :
    ∃ s u : System 499 ℕ ℕ (Fin 1),
      Transition.run (step (body id)) (start emptyMap) [] = some s ∧
      step (body id) s (.call 0 (getTaskRef 5) none) = some u ∧
      u.log = [(getTaskRef 5, .returnFalse)] ∧ getTaskRefReturns 0 (.returnFalse) = (true, 0) ∧
      ¬ AgreesWithRegistry (s.log.map event) 5 0 (getTaskRefReturns 0 .returnFalse) := by
  refine ⟨_, _, rfl, rfl, rfl, rfl, ?_⟩
  apply not_agreesWithRegistry_of_missed
  rintro ⟨v, howns⟩
  exact not_owns_nil 5 v howns

end Banana.MessageCenter
